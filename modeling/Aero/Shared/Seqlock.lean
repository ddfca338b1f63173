import Aero.Types
import Mathlib.Data.Fin.VecNotation

namespace Aero.Shared

class Record (α : Type) where
  count : Nat
  words : α → Fin count → U32
  ofWords : (Fin count → U32) → α
  ofWords_words (a : α) : ofWords (words a) = a

def generationBusyBit : U32 := 1 <<< 31

def isBusy (generation : U32) : Bool :=
  generation &&& generationBusyBit ≠ 0

def nextGeneration (start : U32) : U32 :=
  (start + 1) &&& ~~~generationBusyBit

def maxSpins : Nat := 1_000_000

structure Cell (α : Type) [Record α] where
  generation : U32
  fields : Fin (Record.count α) → U32

structure Snapshot (α : Type) where
  generation : U32
  update : α
  deriving DecidableEq

inductive Publisher (α : Type)
  | idle
  | loadStart (update : α)
  | acquire (update : α) (start : U32) (spins : Nat)
  -- with all fields stored it stores the generation
  | store (update : α) (start : U32) (stored : Nat)
  | done (result : Option U32)

-- Where a reader stands in `try_snapshot`. `seen` is the number of publishes that were complete
-- when it loaded the generation for the first time; it is only observed.
inductive Reader (α : Type)
  | idle
  | loadFirst (spins : Nat)
  -- with all fields loaded it loads the generation again
  | load (spins : Nat) (gen0 : U32) (values : List U32) (seen : Nat)
  | done (result : Option (Snapshot α))

-- The last two fields only record what has happened: the published updates with their generations
-- after the initial one, and what each reader has got.
structure System (α ι ρ : Type) [Record α] where
  cell : Cell α
  publishers : ι → Publisher α
  readers : ρ → Reader α
  history : List (Snapshot α)
  returned : ρ → List (Snapshot α)

inductive Action (α ι ρ : Type)
  | publish (p : ι) (update : α)
  -- a weak exchange can also fail without a reason
  | publisher (p : ι) (spurious : Bool)
  | snapshot (r : ρ)
  | reader (r : ρ)

namespace System

variable {α ι ρ : Type} [Record α]

def init (initial : α) : System α ι ρ where
  cell := ⟨0, Record.words initial⟩
  publishers := fun _ => .idle
  readers := fun _ => .idle
  history := [⟨0, initial⟩]
  returned := fun _ => []

def published (s : System α ι ρ) : Nat :=
  s.history.length - 1

section Publishers

variable [DecidableEq ι] (s : System α ι ρ) (p : ι) (state : Publisher α)

def setPublisher : System α ι ρ :=
  { s with publishers := Function.update s.publishers p state }

@[simp]
theorem setPublisher_publishers_self : (s.setPublisher p state).publishers p = state :=
  Function.update_self ..

@[simp]
theorem setPublisher_cell : (s.setPublisher p state).cell = s.cell := rfl

end Publishers

section Readers

variable [DecidableEq ρ] (s : System α ι ρ) (r : ρ) (state : Reader α)

def setReader : System α ι ρ :=
  { s with readers := Function.update s.readers r state }

@[simp]
theorem setReader_readers_self : (s.setReader r state).readers r = state :=
  Function.update_self ..

@[simp]
theorem setReader_cell : (s.setReader r state).cell = s.cell := rfl

end Readers

variable [DecidableEq ι] [DecidableEq ρ]

def lock (s : System α ι ρ) (p : ι) (update : α) (start : U32) : System α ι ρ :=
  { s with
    cell := { s.cell with generation := start ||| generationBusyBit }
    publishers := Function.update s.publishers p (.store update start 0) }

def storeField (s : System α ι ρ) (p : ι) (update : α) (start : U32) (k : Fin (Record.count α)) :
    System α ι ρ :=
  { s with
    cell := { s.cell with fields := Function.update s.cell.fields k (Record.words update k) }
    publishers := Function.update s.publishers p (.store update start (k + 1)) }

def storeGeneration (s : System α ι ρ) (p : ι) (update : α) (start : U32) : System α ι ρ :=
  { s with
    cell := { s.cell with generation := nextGeneration start }
    publishers := Function.update s.publishers p (.done (some (nextGeneration start)))
    history := s.history ++ [⟨nextGeneration start, update⟩] }

def stepPublisher (s : System α ι ρ) (p : ι) (spurious : Bool) : System α ι ρ :=
  match s.publishers p with
  | .idle             => s
  | .done _           => s
  | .loadStart update => s.setPublisher p (.acquire update s.cell.generation maxSpins)
  | .acquire _ _ 0    => s.setPublisher p (.done none)
  | .acquire update start (spins + 1) =>
    if isBusy start then s.setPublisher p (.acquire update s.cell.generation spins)
    else if s.cell.generation = start ∧ spurious = false then s.lock p update start
    else s.setPublisher p (.acquire update s.cell.generation spins)
  | .store update start stored =>
    if h : stored < Record.count α then s.storeField p update start ⟨stored, h⟩
    else s.storeGeneration p update start

def ofValues (values : List U32) : α :=
  Record.ofWords fun k => values.getD k 0

def «return» (s : System α ι ρ) (r : ρ) (snapshot : Snapshot α) : System α ι ρ :=
  { s with
    readers := Function.update s.readers r (.done (some snapshot))
    returned := Function.update s.returned r (s.returned r ++ [snapshot]) }

def stepReader (s : System α ι ρ) (r : ρ) : System α ι ρ :=
  match s.readers r with
  | .idle                => s
  | .done _              => s
  | .loadFirst 0         => s.setReader r (.done none)
  | .loadFirst (spins + 1) =>
    if isBusy s.cell.generation then s.setReader r (.loadFirst spins)
    else s.setReader r (.load spins s.cell.generation [] s.published)
  | .load spins gen0 values seen =>
    if h : values.length < Record.count α then
      s.setReader r (.load spins gen0 (values ++ [s.cell.fields ⟨values.length, h⟩]) seen)
    else if gen0 = s.cell.generation then s.return r ⟨gen0, ofValues values⟩
    else
      s.setReader r (.loadFirst spins)

-- A call begins only after the previous call of the same thread has returned.
def step (s : System α ι ρ) : Action α ι ρ → System α ι ρ
  | .publish p update =>
    match s.publishers p with
    | .idle   => s.setPublisher p (.loadStart update)
    | .done _ => s.setPublisher p (.loadStart update)
    | _       => s
  | .publisher p spurious => s.stepPublisher p spurious
  | .snapshot r =>
    match s.readers r with
    | .idle   => s.setReader r (.loadFirst maxSpins)
    | .done _ => s.setReader r (.loadFirst maxSpins)
    | _       => s
  | .reader r => s.stepReader r

def FewPublishes (s : System α ι ρ) : Action α ι ρ → Prop
  | .reader r =>
    match s.readers r with
    | .load _ _ _ seen => s.published - seen < 2 ^ 31
    | _                => True
  | _ => True

inductive Reachable (initial : α) : System α ι ρ → Prop
  | start : Reachable initial (init initial)
  | step {s : System α ι ρ} (a : Action α ι ρ) :
    Reachable initial s → s.FewPublishes a → Reachable initial (s.step a)

end System

structure ScanoutStateUpdate where
  source : U32
  basePaddrLo : U32
  basePaddrHi : U32
  width : U32
  height : U32
  pitchBytes : U32
  format : U32
  deriving DecidableEq

instance : Record ScanoutStateUpdate where
  count := 7
  words u := ![u.source, u.basePaddrLo, u.basePaddrHi, u.width, u.height, u.pitchBytes, u.format]
  ofWords w := ⟨w 0, w 1, w 2, w 3, w 4, w 5, w 6⟩
  ofWords_words _ := rfl

def scanoutSourceLegacyText : U32 := 0

def scanoutFormatB8G8R8X8 : U32 := 2

def ScanoutStateUpdate.new : ScanoutStateUpdate :=
  ⟨scanoutSourceLegacyText, 0, 0, 0, 0, 0, scanoutFormatB8G8R8X8⟩

structure CursorStateUpdate where
  enable : U32
  x : U32
  y : U32
  hotX : U32
  hotY : U32
  width : U32
  height : U32
  pitchBytes : U32
  format : U32
  basePaddrLo : U32
  basePaddrHi : U32
  deriving DecidableEq

instance : Record CursorStateUpdate where
  count := 11
  words u := ![u.enable, u.x, u.y, u.hotX, u.hotY, u.width, u.height, u.pitchBytes, u.format,
    u.basePaddrLo, u.basePaddrHi]
  ofWords w := ⟨w 0, w 1, w 2, w 3, w 4, w 5, w 6, w 7, w 8, w 9, w 10⟩
  ofWords_words _ := rfl

def cursorFormatB8G8R8A8 : U32 := 1

def CursorStateUpdate.new : CursorStateUpdate :=
  ⟨0, 0, 0, 0, 0, 0, 0, 0, cursorFormatB8G8R8A8, 0, 0⟩

end Aero.Shared
