import Xcpfs.SuperParse

/-! The superblock page that `do_checkpoint` fills. `cp_append_nat` writes at the count the page
holds, and a restart clears as many entries as `META_NAT_NR` says; the stores into the page are
kept beside it, so that one behind its end can be seen. -/
namespace Xcpfs
open CBytes

def metaNatNr : Nat := (pageSize - superBlockSize + 8) / natEntrySbSize

/- `cpc` with `cp_phase`, and the fields of the page stored to so far. -/
structure CpJournal where
  raw : Memory
  restart : Bool
  cpPhase : Nat
  stores : List PackedField

namespace CpJournal

def metaNatCnt (s : CpJournal) : Nat := getField s.raw XcpfsSuperBlock.metaNatCnt

def put (s : CpJournal) (f : PackedField) (n : Nat) : CpJournal :=
  { s with raw := putField s.raw f n, stores := s.stores ++ [f] }

def appendNat (s : CpJournal) (ne : MetaNat) : CpJournal :=
  let i := s.metaNatCnt
  let s := s.put (XcpfsSuperBlock.nid i) ne.nid
  let s := s.put (XcpfsSuperBlock.blockAddr i) ne.blockAddr
  let s := s.put (XcpfsSuperBlock.ino i) ne.ino
  s.put XcpfsSuperBlock.metaNatCnt (i + 1)

def initCpsb (s : CpJournal) (sbi : SuperCounts) : CpJournal :=
  let s := s.put ⟨0,pageSize⟩ 0
  let s := s.put XcpfsSuperBlock.magic xcpfsMagic
  let s := s.put XcpfsSuperBlock.metaIno sbi.metaIno
  let s := s.put XcpfsSuperBlock.nodeIno sbi.nodeIno
  let s := s.put XcpfsSuperBlock.rootIno sbi.rootIno
  let s := s.put XcpfsSuperBlock.natPageCount sbi.natPageCount
  let s := s.put XcpfsSuperBlock.zitPageCount sbi.zitPageCount
  let s := s.put XcpfsSuperBlock.ssaPageCount sbi.ssaPageCount
  s.put XcpfsSuperBlock.metaNatCnt 0

/- The part behind the label `restart`. -/
def checkRestart (s : CpJournal) : CpJournal :=
  if s.restart then
    let s := { s with restart := false }
    let s := s.put ⟨superBlockSize,metaNatNr * natEntrySbSize⟩ 0
    s.put XcpfsSuperBlock.metaNatCnt 0
  else s

end CpJournal

/- What goes on beside a checkpoint: the write of a node page ends, with the entry that is looked
up for it, or `get_zone` opens a zone. -/
inductive JournalEvent where
  | nodeEnds (ne : MetaNat)
  | zoneOpens

/- The flag beside an event says whether `cp_sem` is held by anyone. -/
def journalStep (s : CpJournal) : Bool × JournalEvent → CpJournal
  | (locked,.nodeEnds ne) => if locked = true ∧ s.cpPhase = 2 then s.appendNat ne else s
  | (locked,.zoneOpens) => if locked = true then { s with restart := true } else s

def CpJournal.run (s : CpJournal) (events : List (Bool × JournalEvent)) : CpJournal := events.foldl journalStep s

def whileHeld (events : List JournalEvent) : List (Bool × JournalEvent) := events.map (true,·)

/- What happens in the three phases of a pass and after it gave `cp_sem` back, and the entries of
nids 1 and 3 that it looks up. -/
structure JournalPass where
  phase1 : List JournalEvent
  phase2 : List JournalEvent
  phase3 : List JournalEvent
  after : List (Bool × JournalEvent)
  metaEntry : MetaNat
  rootEntry : MetaNat

def CpJournal.pass (s : CpJournal) (p : JournalPass) : CpJournal :=
  let s := { s with cpPhase := 0 }
  let s := { s with cpPhase := 1 }.run (whileHeld p.phase1)
  let s := { s with cpPhase := 2 }.run (whileHeld p.phase2)
  let s := (s.appendNat p.metaEntry).run (whileHeld p.phase3)
  (s.appendNat p.rootEntry).run p.after

/- The passes up to one that leaves no restart behind. -/
def CpJournal.passes : List JournalPass → CpJournal → CpJournal
  | [],s => s.checkRestart
  | p :: rest,s =>
    let s := s.checkRestart.pass p
    if s.restart then passes rest s else s

/-- `do_checkpoint`; `fresh` is the memory it allocates when there is no `cpc` yet. -/
def journalCheckpoint (sbi : SuperCounts) (fresh : CpJournal) (cpc : Option CpJournal) (first : JournalPass)
    (rest : List JournalPass) : CpJournal :=
  let s := match cpc with
    | none => { fresh with stores := [] }.initCpsb sbi
    | some cpc => { cpc with stores := [] }
  s.passes (first :: rest)

/- No byte behind the page is stored to. -/
def CpJournal.Inside (s : CpJournal) : Prop := ∀ f ∈ s.stores, f.last ≤ pageSize

def JournalEvent.appends : Bool × JournalEvent → Bool
  | (locked,.nodeEnds _) => locked
  | (_,.zoneOpens) => false

def JournalEvent.reopens : Bool × JournalEvent → Bool
  | (_,.nodeEnds _) => false
  | (locked,.zoneOpens) => locked

/- The events of a pass while `cp_phase` is 2. -/
def JournalPass.late (p : JournalPass) : List (Bool × JournalEvent) := whileHeld p.phase2 ++ whileHeld p.phase3 ++ p.after

section
variable {s : CpJournal} {p : JournalPass} {events : List (Bool × JournalEvent)}

theorem insidePut (f : PackedField) (n : Nat) : (s.put f n).Inside ↔ s.Inside ∧ f.last ≤ pageSize := by
  constructor
  · intro inside
    exact ⟨fun g member => inside g (List.mem_append_left _ member),inside f (List.mem_append_right _ List.mem_cons_self)⟩
  · intro ⟨before,last⟩ g member
    rcases List.mem_append.mp member with member | member
    · exact before g member
    · exact List.mem_singleton.mp member ▸ last

/- An entry is written inside the page if and only if the count leaves room for it. -/
theorem appendInside (ne : MetaNat) : (s.appendNat ne).Inside ↔ s.Inside ∧ s.metaNatCnt < metaNatRoom := by
  unfold CpJournal.appendNat
  simp only [insidePut]
  have entry := entryInside s.metaNatCnt
  have room : (XcpfsSuperBlock.blockAddr s.metaNatCnt).last = (XcpfsSuperBlock.metaNat s.metaNatCnt).last := rfl
  have first : (XcpfsSuperBlock.nid s.metaNatCnt).last ≤ (XcpfsSuperBlock.metaNat s.metaNatCnt).last :=
    Nat.add_le_add_left (show 4 ≤ 13 by decide) _
  have second : (XcpfsSuperBlock.ino s.metaNatCnt).last ≤ (XcpfsSuperBlock.metaNat s.metaNatCnt).last := by
    change 30 + 13 * s.metaNatCnt + 5 + 4 ≤ 30 + 13 * s.metaNatCnt + 13
    omega
  have count : XcpfsSuperBlock.metaNatCnt.last ≤ pageSize := by decide
  rw [room]
  constructor
  · intro ⟨⟨⟨⟨before,_⟩,last⟩,_⟩,_⟩
    exact ⟨before,entry.mp last⟩
  · intro ⟨before,less⟩
    have last := entry.mpr less
    exact ⟨⟨⟨⟨before,first.trans last⟩,last⟩,second.trans last⟩,count⟩

theorem appendCount (ne : MetaNat) : (s.appendNat ne).metaNatCnt = (s.metaNatCnt + 1) % 2 ^ 16 :=
  getPutSame _ XcpfsSuperBlock.metaNatCnt _

theorem appendNext (ne : MetaNat) (room : s.metaNatCnt < metaNatRoom) : (s.appendNat ne).metaNatCnt = s.metaNatCnt + 1 := by
  have small : metaNatRoom < 2 ^ 16 := by decide
  rw [appendCount]
  omega

theorem runPhase (events : List (Bool × JournalEvent)) : (s.run events).cpPhase = s.cpPhase := by
  induction events generalizing s with
  | nil => rfl
  | cons event rest ih =>
    refine ih.trans ?_
    obtain ⟨locked,ne | _⟩ := event <;> simp only [journalStep] <;> split <;> rfl

theorem runRestart (events : List (Bool × JournalEvent)) :
    (s.run events).restart = (s.restart || events.any JournalEvent.reopens) := by
  induction events generalizing s with
  | nil => simp [CpJournal.run]
  | cons event rest ih =>
    refine ih.trans ?_
    rw [List.any_cons,← Bool.or_assoc]
    congr 1
    obtain ⟨locked,ne | _⟩ := event
    · simp only [journalStep,JournalEvent.reopens,Bool.or_false]
      split <;> rfl
    · cases locked <;> simp [journalStep,JournalEvent.reopens]

theorem stepTakes {event : Bool × JournalEvent} (phase : s.cpPhase = 2) (takes : JournalEvent.appends event = true) :
    ∃ ne, journalStep s event = s.appendNat ne := by
  obtain ⟨locked,ne | _⟩ := event
  · exact ⟨ne,if_pos ⟨takes,phase⟩⟩
  · cases takes

theorem stepKeeps {event : Bool × JournalEvent} (idle : s.cpPhase = 2 → JournalEvent.appends event = false) :
    (journalStep s event).raw = s.raw ∧ (journalStep s event).stores = s.stores := by
  obtain ⟨locked,ne | _⟩ := event
  · simp only [journalStep]
    rw [if_neg fun both => Bool.false_ne_true ((idle both.2).symm.trans both.1)]
    exact ⟨rfl,rfl⟩
  · simp only [journalStep]
    split <;> exact ⟨rfl,rfl⟩

theorem runQuiet (phase : s.cpPhase ≠ 2) (events : List (Bool × JournalEvent)) :
    (s.run events).raw = s.raw ∧ (s.run events).stores = s.stores := by
  induction events generalizing s with
  | nil => exact ⟨rfl,rfl⟩
  | cons event rest ih =>
    have step : (journalStep s event).raw = s.raw ∧ (journalStep s event).stores = s.stores :=
      stepKeeps fun late => absurd late phase
    have same : (journalStep s event).cpPhase = s.cpPhase := @runPhase s [event]
    obtain ⟨raw,stores⟩ := ih (same ▸ phase)
    exact ⟨raw.trans step.1,stores.trans step.2⟩

theorem runLate (phase : s.cpPhase = 2) (events : List (Bool × JournalEvent)) :
    ((s.run events).Inside ↔ s.Inside ∧ (events.countP JournalEvent.appends = 0 ∨
      s.metaNatCnt + events.countP JournalEvent.appends ≤ metaNatRoom)) ∧
    ((s.run events).Inside → (s.run events).metaNatCnt = s.metaNatCnt + events.countP JournalEvent.appends) := by
  induction events generalizing s with
  | nil => simp [CpJournal.run]
  | cons event rest ih =>
    have same : (journalStep s event).cpPhase = s.cpPhase := @runPhase s [event]
    obtain ⟨inside,count⟩ := ih (same.trans phase)
    change (((journalStep s event).run rest).Inside ↔ _) ∧ (((journalStep s event).run rest).Inside → 
      ((journalStep s event).run rest).metaNatCnt = _)
    by_cases takes : JournalEvent.appends event = true
    · obtain ⟨ne,ran⟩ := stepTakes phase takes
      rw [List.countP_cons_of_pos takes]
      rw [ran,appendInside] at inside
      rw [ran] at count ⊢
      have next := @appendNext s ne
      constructor
      · rw [inside]
        constructor
        · intro ⟨⟨before,room⟩,rest⟩
          rw [next room] at rest
          exact ⟨before,.inr (by omega)⟩
        · intro ⟨before,rest⟩
          have room : s.metaNatCnt < metaNatRoom := by omega
          rw [next room]
          exact ⟨⟨before,room⟩,.inr (by omega)⟩
      · intro ended
        rw [count ended,next (inside.mp ended).1.2]
        omega
    · have idle : JournalEvent.appends event = false := Bool.eq_false_iff.mpr takes
      obtain ⟨raw,stores⟩ := @stepKeeps s event fun _ => idle
      have counted : (journalStep s event).metaNatCnt = s.metaNatCnt := congrArg (getField · XcpfsSuperBlock.metaNatCnt) raw
      have before : (journalStep s event).Inside ↔ s.Inside := by
        unfold CpJournal.Inside
        rw [stores]
      rw [List.countP_cons_of_neg takes]
      rw [before,counted] at inside
      rw [counted] at count
      exact ⟨inside,count⟩

/- A pass stays inside the page if and only if there is room for its node writes and two more. -/
theorem passInside (s : CpJournal) (p : JournalPass) : (s.pass p).Inside ↔
    s.Inside ∧ s.metaNatCnt + p.late.countP JournalEvent.appends + 2 ≤ metaNatRoom := by
  unfold CpJournal.pass JournalPass.late
  dsimp only
  rw [List.countP_append,List.countP_append]
  have early : ({ s with cpPhase := 1 } : CpJournal).cpPhase ≠ 2 := show 1 ≠ 2 by decide
  obtain ⟨raw,stores⟩ := runQuiet early (whileHeld p.phase1)
  generalize ({ s with cpPhase := 1 } : CpJournal).run (whileHeld p.phase1) = a at *
  have quiet : ({ a with cpPhase := 2 } : CpJournal).Inside ↔ s.Inside := by
    unfold CpJournal.Inside
    rw [stores]
  have start : ({ a with cpPhase := 2 } : CpJournal).metaNatCnt = s.metaNatCnt := congrArg (getField · XcpfsSuperBlock.metaNatCnt) raw
  obtain ⟨inB,countB⟩ := @runLate { a with cpPhase := 2 } rfl (whileHeld p.phase2)
  have phaseB := @runPhase { a with cpPhase := 2 } (whileHeld p.phase2)
  rw [quiet,start] at inB
  rw [start] at countB
  generalize ({ a with cpPhase := 2 } : CpJournal).run (whileHeld p.phase2) = b at *
  have inC := @appendInside b p.metaEntry
  have countC := @appendNext b p.metaEntry
  have phaseC : (b.appendNat p.metaEntry).cpPhase = 2 := phaseB
  generalize b.appendNat p.metaEntry = c at *
  obtain ⟨inD,countD⟩ := @runLate c phaseC (whileHeld p.phase3)
  have phaseD := @runPhase c (whileHeld p.phase3)
  generalize c.run (whileHeld p.phase3) = d at *
  have inE := @appendInside d p.rootEntry
  have countE := @appendNext d p.rootEntry
  have phaseE : (d.appendNat p.rootEntry).cpPhase = 2 := phaseD.trans phaseC
  generalize d.appendNat p.rootEntry = e at *
  have inF := (@runLate e phaseE p.after).1
  constructor
  · intro ended
    obtain ⟨insideE,roomE⟩ := inF.mp ended
    obtain ⟨insideD,roomD⟩ := inE.mp insideE
    obtain ⟨insideC,roomC⟩ := inD.mp insideD
    obtain ⟨insideB,roomB⟩ := inC.mp insideC
    have atB := countB insideB
    have atC := countC roomB
    have atD := countD insideD
    have atE := countE roomD
    exact ⟨(inB.mp insideB).1,by omega⟩
  · intro ⟨inside,room⟩
    have insideB := inB.mpr ⟨inside,.inr (by omega)⟩
    have atB := countB insideB
    have insideC := inC.mpr ⟨insideB,by omega⟩
    have atC := countC (by omega)
    have insideD := inD.mpr ⟨insideC,.inr (by omega)⟩
    have atD := countD insideD
    have insideE := inE.mpr ⟨insideD,by omega⟩
    have atE := countE (by omega)
    exact inF.mpr ⟨insideE,.inr (by omega)⟩

theorem passRestart (s : CpJournal) (p : JournalPass) : (s.pass p).restart =
    (s.restart || ((whileHeld p.phase1).any JournalEvent.reopens || p.late.any JournalEvent.reopens)) := by
  unfold CpJournal.pass JournalPass.late
  rw [runRestart]
  change ((CpJournal.run _ _).restart || _) = _
  rw [runRestart]
  change (((CpJournal.run _ _).restart || _) || _) = _
  rw [runRestart]
  change ((((CpJournal.run _ _).restart || _) || _) || _) = _
  rw [runRestart,List.any_append,List.any_append]
  simp only [Bool.or_assoc]

theorem restartOverruns (s : CpJournal) : s.checkRestart.Inside ↔ s.Inside ∧ s.restart = false := by
  unfold CpJournal.checkRestart
  cases flag : s.restart with
  | false => simp
  | true =>
    have past : ¬(⟨superBlockSize,metaNatNr * natEntrySbSize⟩ : PackedField).last ≤ pageSize := by decide
    rw [if_pos rfl,insidePut,insidePut]
    constructor
    · intro ⟨⟨_,last⟩,_⟩
      exact absurd last past
    · intro ⟨_,same⟩
      cases same

theorem passesInside (passes : List JournalPass) (s : CpJournal) (inside : (s.passes passes).Inside) : s.Inside ∧ s.restart = false := by
  induction passes generalizing s with
  | nil => exact (restartOverruns s).mp inside
  | cons p rest ih =>
    unfold CpJournal.passes at inside
    dsimp only at inside
    split at inside
    · have again := (ih _ inside).1
      exact (restartOverruns s).mp ((passInside _ p).mp again).1
    · exact (restartOverruns s).mp ((passInside _ p).mp inside).1

theorem passesIff (s : CpJournal) (first : JournalPass) (rest : List JournalPass) : (s.passes (first :: rest)).Inside ↔
    s.Inside ∧ s.restart = false ∧ (whileHeld first.phase1 ++ first.late).any JournalEvent.reopens = false ∧
      s.metaNatCnt + first.late.countP JournalEvent.appends + 2 ≤ metaNatRoom := by
  rw [List.any_append]
  constructor
  · intro ended
    obtain ⟨inside,clear⟩ := passesInside _ s ended
    have unchanged : s.checkRestart = s := if_neg (Bool.eq_false_iff.mp clear)
    unfold CpJournal.passes at ended
    dsimp only at ended
    rw [unchanged] at ended
    have again := passRestart s first
    split at ended
    · rename_i restarts
      cases restarts.symm.trans (passesInside rest _ ended).2
    · rename_i done
      rw [clear,Bool.false_or] at again
      exact ⟨inside,clear,again.symm.trans (Bool.eq_false_iff.mpr done),((passInside s first).mp ended).2⟩
  · intro ⟨inside,clear,closed,room⟩
    have unchanged : s.checkRestart = s := if_neg (Bool.eq_false_iff.mp clear)
    have done : (s.pass first).restart = false := by
      rw [passRestart,clear,Bool.false_or]
      exact closed
    unfold CpJournal.passes
    dsimp only
    rw [unchanged,if_neg (Bool.eq_false_iff.mp done)]
    exact (passInside s first).mpr ⟨inside,room⟩

theorem initInside (s : CpJournal) (sbi : SuperCounts) : (s.initCpsb sbi).Inside ↔ s.Inside := by
  unfold CpJournal.initCpsb
  simp only [insidePut]
  constructor
  · intro ⟨⟨⟨⟨⟨⟨⟨⟨⟨before,_⟩,_⟩,_⟩,_⟩,_⟩,_⟩,_⟩,_⟩,_⟩
    exact before
  · intro before
    exact ⟨⟨⟨⟨⟨⟨⟨⟨⟨before,by decide⟩,by decide⟩,by decide⟩,by decide⟩,by decide⟩,by decide⟩,by decide⟩,by decide⟩,by decide⟩

theorem initCount (s : CpJournal) (sbi : SuperCounts) : (s.initCpsb sbi).metaNatCnt = 0 := getPutSame _ XcpfsSuperBlock.metaNatCnt 0

/- The restart flag and the count that `do_checkpoint` starts with; memory fresh from `kmalloc` has
any flag. -/
def startRestart (fresh : CpJournal) : Option CpJournal → Bool
  | none => fresh.restart
  | some cpc => cpc.restart

def startCount : Option CpJournal → Nat
  | none => 0
  | some cpc => cpc.metaNatCnt

/-- A checkpoint keeps its stores inside the page if and only if it starts without the flag for a
restart, no zone is opened in its first pass, and the page's count, the node writes that end in
phase 2 and two more make 312 at most. -/
theorem checkpointInside (sbi : SuperCounts) (fresh : CpJournal) (cpc : Option CpJournal) (first : JournalPass)
    (rest : List JournalPass) : (journalCheckpoint sbi fresh cpc first rest).Inside ↔
      startRestart fresh cpc = false ∧ (whileHeld first.phase1 ++ first.late).any JournalEvent.reopens = false ∧
        startCount cpc + first.late.countP JournalEvent.appends + 2 ≤ metaNatRoom := by
  cases cpc with
  | none =>
    have start : (({ fresh with stores := [] } : CpJournal).initCpsb sbi).Inside :=
      (initInside _ sbi).mpr fun f member => by cases member
    have whole := passesIff (({ fresh with stores := [] } : CpJournal).initCpsb sbi) first rest
    rw [initCount] at whole
    exact whole.trans ⟨And.right,fun both => ⟨start,both⟩⟩
  | some cpc =>
    have start : ({ cpc with stores := [] } : CpJournal).Inside := fun f member => by cases member
    exact (passesIff { cpc with stores := [] } first rest).trans ⟨And.right,fun both => ⟨start,both⟩⟩

end

def blankJournal : CpJournal := ⟨fun _ => 0,false,0,[]⟩

/- A pass with the given events in phase 2 and none in the others. -/
def phase2Pass (events : List JournalEvent) : JournalPass := ⟨[],events,[],[],⟨1,1,800⟩,⟨3,3,900⟩⟩

/-- The first checkpoint of a mount leaves the page if a zone is opened in its first pass, and if the
writes of 311 node pages end in phase 2. -/
theorem checkpointOverruns :
    ¬(journalCheckpoint ⟨3,1,2,0,0,0,0⟩ blankJournal none (phase2Pass [.zoneOpens]) [phase2Pass []]).Inside ∧
      ¬(journalCheckpoint ⟨3,1,2,0,0,0,0⟩ blankJournal none (phase2Pass (List.replicate 311 (.nodeEnds ⟨5,1,700⟩))) []).Inside := by
  constructor
  · intro inside
    obtain ⟨_,_,closed,_⟩ := (passesIff _ _ _).mp inside
    cases closed
  · have counted : (whileHeld (List.replicate 311 (.nodeEnds ⟨5,1,700⟩))).countP JournalEvent.appends = 311 := by
      unfold whileHeld
      rw [List.map_replicate,List.countP_replicate]
      exact if_pos rfl
    generalize List.replicate 311 (JournalEvent.nodeEnds ⟨5,1,700⟩) = events at *
    intro inside
    obtain ⟨_,_,_,room⟩ := (passesIff _ _ _).mp inside
    have late : (phase2Pass events).late = whileHeld events := by
      simp [phase2Pass,JournalPass.late,whileHeld]
    rw [initCount,late,counted] at room
    exact absurd room (by decide)

end Xcpfs
