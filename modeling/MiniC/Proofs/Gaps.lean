import Mathlib.Data.List.Find
import MiniC.Proofs.Footing

/-!
# Gaps in the numbers of frames

Where further frames have been pushed, later ones get other numbers. Evaluations do not depend
on these numbers. What is the same up to them is renamed: a frame by what lies around it, a
thunk by its home, a call by its two frames.
-/

namespace MiniC

/-- Numbers of frames that are left out: so many, from the first one on. -/
structure Gap where
  base : Nat
  size : Nat

namespace Gap

/-! ## Renaming -/

/-- The number that a frame gets beside the gap. -/
def number (g : Gap) (n : Nat) : Nat := if n < g.base then n else n + g.size

/-- The frame of that number. -/
def ref (g : Gap) : FrameRef → FrameRef
  | .numbered n => .numbered (g.number n)
  | .detached k => .detached k

/-- A frame lies inside others, which are renamed. -/
def frame (g : Gap) (f : Frame) : Frame := { f with around := f.around.map g.ref }

/-- A thunk has a home, which is renamed. -/
def thunk (g : Gap) (t : Thunk) : Thunk := { t with home := g.ref t.home }

/-- Memory with the homes of its thunks renamed. -/
def memory (g : Gap) (m : Memory) : Memory := { m with thunks := m.thunks.map g.thunk }

/-- A call is made from a frame and has one, which are renamed. -/
def call (g : Gap) (c : CallBoundary) : CallBoundary := { c with caller := g.number c.caller, frame := g.number c.frame }

/-- States that are the same up to the numbers of frames, and to frames with numbers in the
    gap. The stacks, the calls and the observed nodes are not compared. -/
structure Same (g : Gap) (s t : State) : Prop where
  memory : t.memory = g.memory s.memory
  output : t.output = s.output
  steps : t.steps = s.steps
  errors : t.errors = s.errors
  frames : t.frames.size = s.frames.size + g.size
  frame (r : FrameRef) : t.frame (g.ref r) = g.frame (s.frame r)

/-- Interrupts that are the same up to the numbers of frames. The report of a completion without
    a value outlines thunks, and so the numbers of their homes. -/
inductive Alike (g : Gap) : Interrupt → Interrupt → Prop
  | same (i : Interrupt) : Alike g i i
  | stray (label : Label) {c : Completion} {m : Memory} {shown shown' : String} (outlined : c.outline? m = some shown)
      (outlined' : c.outline? (g.memory m) = some shown') :
      Alike g (.error (.invariant (.strayCompletion label shown))) (.error (.invariant (.strayCompletion label shown')))

/-- Results that are the same up to the numbers of frames. -/
inductive Results {α : Type} (g : Gap) : Except Interrupt α → Except Interrupt α → Prop
  | value (a : α) : Results g (.ok a) (.ok a)
  | interrupt {i i' : Interrupt} (alike : g.Alike i i') : Results g (.error i) (.error i')

variable {g : Gap} {m n : Nat}

/-! ## Numbers -/

theorem number_of_lt (inside : n < g.base) : g.number n = n := if_pos inside

theorem number_of_le (outside : g.base ≤ n) : g.number n = n + g.size := if_neg (Nat.not_lt_of_le outside)

theorem number_inj : g.number m = g.number n ↔ m = n := by
  unfold number
  split <;> split <;> omega

/-- No frame gets a number in the gap. -/
theorem number_ne (above : g.base ≤ n) (below : n < g.base + g.size) : g.number m ≠ n := by
  unfold number
  split <;> omega

theorem number_lt {k : Nat} (outside : g.base ≤ k) : g.number n < k + g.size ↔ n < k := by
  unfold number
  split <;> omega

theorem ref_inj {r q : FrameRef} : g.ref r = g.ref q ↔ r = q := by
  cases r <;> cases q <;> simp [ref, number_inj]

theorem ref_of_lt (inside : n < g.base) : g.ref (.numbered n) = .numbered n := congrArg _ (number_of_lt inside)

/-- A frame inside frames that are not renamed stays the same. -/
theorem frame_eq {f : Frame} (older : ∀ q ∈ f.around, g.ref q = q) : g.frame f = f := by
  unfold frame
  rw [List.map_congr_left older, List.map_id']

section positive
variable (positive : 0 < g.base)
include positive

theorem ref_global : g.ref .global = .global := ref_of_lt positive

theorem number_ref (r : FrameRef) : (g.ref r).number = g.number r.number := by
  cases r with
  | numbered n => rfl
  | detached k => exact (number_of_lt positive).symm

theorem number_eq_global : g.number n = globalNumber ↔ n = globalNumber := by
  unfold number globalNumber
  split <;> omega

/-! ## Memory -/

theorem thunk_memory (m : Memory) (r : ThunkRef) : (g.memory m).thunk r = g.thunk (m.thunk r) := by
  have missing : g.thunk default = default := by
    show (⟨_, g.ref .global, _⟩ : Thunk) = _
    rw [ref_global positive]
    rfl
  unfold Memory.thunk memory
  rw [Array.getD_eq_getD_getElem?, Array.getD_eq_getD_getElem?, Array.getElem?_map]
  cases m.thunks[r.index]? with
  | none => exact missing.symm
  | some t => rfl

end positive

theorem memory_newThunk (m : Memory) (n : Node) (home : FrameRef) :
    g.memory (m.newThunk n home).2 = ((g.memory m).newThunk n (g.ref home)).2 := by
  simp [memory, Memory.newThunk, thunk]

theorem memory_setPhase (m : Memory) (r : ThunkRef) (phase : Phase) :
    g.memory (m.setPhase r phase) = (g.memory m).setPhase r phase := by
  unfold memory Memory.setPhase
  congr 1
  refine Array.ext (by simp) fun i inside _ => ?_
  simp only [Array.getElem_map, Array.getElem_modify]
  split
  · rfl
  · rfl

/-- The texts that have no end are the same. -/
theorem unending_memory {m : Memory} {v : Value} : (g.memory m).Unending v ↔ m.Unending v :=
  Memory.unending_congr rfl fun i => by
    unfold memory
    rw [Array.getElem?_map]
    cases m.thunks[i]? <;> rfl

theorem alike_stray (c : Completion) (label : Label) (m : Memory) :
    g.Alike (c.stray label m) (c.stray label (g.memory m)) := by
  have both : c.outline? (g.memory m) = none ↔ c.outline? m = none := by
    simp only [Completion.outline?_eq_none, unending_memory]
  rcases c.stray_cases label m with ⟨shown, outlined, told⟩ | ⟨unknown, endless⟩ <;>
    rcases c.stray_cases label (g.memory m) with ⟨shown', outlined', told'⟩ | ⟨unknown', endless'⟩
  · rw [told, told']
    exact .stray label outlined outlined'
  · cases outlined.symm.trans (both.mp unknown')
  · cases outlined'.symm.trans (both.mpr unknown)
  · rw [endless, endless']
    exact .same _

/-- Where all homes are older than the gap nothing is renamed. -/
theorem memory_eq {m : Memory} (homes : ∀ r : ThunkRef, r.index < m.thunks.size → g.ref (m.thunk r).home = (m.thunk r).home) :
    g.memory m = m := by
  have same : m.thunks.map g.thunk = m.thunks := by
    refine Array.ext (by simp) fun i inside small => ?_
    have kept := homes ⟨i⟩ small
    simp only [Memory.thunk, Array.getD_eq_getD_getElem?, Array.getElem?_eq_getElem small, Option.getD_some] at kept
    rw [Array.getElem_map, thunk, kept]
  unfold memory
  rw [same]

end Gap
end MiniC
