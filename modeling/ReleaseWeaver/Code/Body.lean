import ReleaseWeaver.Code.Instr

/-
  Method bodies: the instructions in execution order, each under its handle. The k-th instruction
  that ever enters a body gets the number k and keeps it; none is ever removed, so the numbers of
  a body are 1, 2, … up to its length, in some order.
-/

namespace ReleaseWeaver

/-- The handles numbered from `start + 1` on. -/
def Handle.series (start count : Nat) : List Handle :=
  (List.range' (start + 1) count).map Handle.nth

structure Body where
  lines : List (Handle × Instr)
  locals : List TypeRef := []
  handles_perm : (lines.map Prod.fst).Perm (Handle.series 0 lines.length)

/-- A handle that names no instruction of the body it was used with. -/
structure UnknownInstruction where
  handle : Handle
deriving DecidableEq, Repr

def UnknownInstruction.message (e : UnknownInstruction) : String :=
  "Instruction handle `" ++ e.handle.text ++ "` does not belong to this method body."

theorem Handle.series_append (start m n : Nat) :
    Handle.series start m ++ Handle.series (start + m) n = Handle.series start (m + n) := by
  simp only [Handle.series, ← List.map_append]
  rw [show start + m + 1 = start + 1 + m by omega, List.range'_append_1]

@[simp] theorem Handle.length_series (start count : Nat) :
    (Handle.series start count).length = count := by
  simp [Handle.series]

namespace Body

def empty : Body := ⟨[], [], by simp [Handle.series]⟩

instance : Inhabited Body := ⟨empty⟩

def length (b : Body) : Nat := b.lines.length

def isEmpty (b : Body) : Bool := b.lines.isEmpty

def handles (b : Body) : List Handle := b.lines.map Prod.fst

def instrs (b : Body) : List Instr := b.lines.map Prod.snd

def get? (b : Body) (h : Handle) : Option Instr :=
  (b.lines.find? fun line => line.1 = h).map Prod.snd

def contains (b : Body) (h : Handle) : Bool := b.handles.contains h

def position? (b : Body) (h : Handle) : Option Nat := b.handles.idxOf? h

/-- The handle at a position. -/
def at? (b : Body) (position : Nat) : Option Handle := b.handles[position]?

def first? (b : Body) : Option Handle := b.handles.head?

def last? (b : Body) : Option Handle := b.handles.getLast?

def next? (b : Body) (h : Handle) : Option Handle :=
  (b.position? h).bind fun position => b.at? (position + 1)

/-- The last instruction, if it is a `ret`. -/
def finalExit? (b : Body) : Option Handle :=
  b.last?.filter fun h => (b.get? h).any Instr.isRet

/-- Each of `run` under a number not used yet. -/
def fresh (b : Body) (run : List Instr) : List (Handle × Instr) :=
  (Handle.series b.length run.length).zip run

theorem map_fst_fresh (b : Body) (run : List Instr) :
    (b.fresh run).map Prod.fst = Handle.series b.length run.length := by
  simp [fresh, List.map_fst_zip]

@[simp] theorem length_fresh (b : Body) (run : List Instr) : (b.fresh run).length = run.length := by
  simp [fresh]

/-- Put `run` at a position; the instructions from there on move back. -/
def insertAt (b : Body) (position : Nat) (run : List Instr) : Body where
  lines := b.lines.take position ++ (b.fresh run ++ b.lines.drop position)
  locals := b.locals
  handles_perm := by
    have split : (b.lines.take position ++ (b.fresh run ++ b.lines.drop position)).Perm
        (b.lines ++ b.fresh run) := by
      refine (List.perm_append_comm.append_left _).trans ?_
      rw [← List.append_assoc, List.take_append_drop]
    have count : (b.lines.take position ++ (b.fresh run ++ b.lines.drop position)).length =
        b.lines.length + run.length := by
      rw [split.length_eq, List.length_append, length_fresh]
    rw [count]
    refine (split.map Prod.fst).trans ?_
    rw [List.map_append, map_fst_fresh, ← Handle.series_append 0, Nat.zero_add]
    exact b.handles_perm.append_right _

/-- The handles that the next `count` instructions will get. -/
def nextHandles (b : Body) (count : Nat) : List Handle := Handle.series b.length count

def append (b : Body) (run : List Instr) : Body := b.insertAt b.length run

def ofInstrs (code : List Instr) : Body := empty.append code

def withLocals (b : Body) (locals : List TypeRef) : Body := { b with locals }

/-- Change instructions in place, each by its handle. -/
def mapInstrs (b : Body) (f : Handle → Instr → Instr) : Body where
  lines := b.lines.map fun (h, i) => (h, f h i)
  locals := b.locals
  handles_perm := by
    simpa [Function.comp_def] using b.handles_perm

/-- Overwrite one instruction. -/
def replace (b : Body) (h : Handle) (instr : Instr) : Body :=
  b.mapInstrs fun h' i => if h' = h then instr else i

def setBranchTarget (b : Body) (h target : Handle) : Except UnknownInstruction Body :=
  if !b.contains target then .error ⟨target⟩
  else if ((b.get? h).bind Instr.target?).isNone then .error ⟨h⟩
  else .ok (b.mapInstrs fun h' i => if h' = h then i.withTarget target else i)

/-- A branch to `source`, other than the instruction `goal` itself. -/
def isRetargeted (source goal : Handle) (line : Handle × Instr) : Bool :=
  line.1 != goal && line.2.target? == some source

/-- Redirect the branches to `source` so that they lead to `goal`. -/
def retarget (b : Body) (source goal : Handle) : Body :=
  b.mapInstrs fun h i => if isRetargeted source goal (h, i) then i.withTarget goal else i

/-- How many branches `retarget` redirects. -/
def retargetCount (b : Body) (source goal : Handle) : Nat :=
  b.lines.countP (isRetargeted source goal)

/-- Insert right before `anchor`; branches to the anchor skip the run. -/
def insertBefore (b : Body) (anchor : Handle) (run : List Instr) :
    Except UnknownInstruction Body :=
  match b.position? anchor with
  | some position => .ok (b.insertAt position run)
  | none => .error ⟨anchor⟩

def insertAfter (b : Body) (anchor : Handle) (run : List Instr) :
    Except UnknownInstruction Body :=
  match b.position? anchor with
  | some position => .ok (b.insertAt (position + 1) run)
  | none => .error ⟨anchor⟩

/-- Insert right before `anchor` and redirect the branches to it onto the run. -/
def insertBeforeRetargeting (b : Body) (anchor : Handle) (run : List Instr) :
    Except UnknownInstruction Body :=
  match b.insertBefore anchor run with
  | .ok b' => .ok (match (b.nextHandles run.length).head? with
    | some head => b'.retarget anchor head
    | none => b')
  | .error e => .error e

end Body

end ReleaseWeaver
