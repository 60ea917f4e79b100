import MiniC.Proofs.Bracketing

/-!
# Matching events

In a bracketed log the visit of a node that is open at some point is left later, by the exit
that matches its entry, or it is still open at the end. Which it is can be told from the log
alone (`Log.Balanced`), and the depths of the events tell it too: between the entry of a
node and its exit everything is deeper (`Log.Brackets.leaves_or_stays`).
-/

namespace MiniC.Log

/-! ## Balanced logs -/

/-- Every node that is entered is left, and no other is. Which nodes these are does not
    matter. -/
inductive Balanced : Log → Prop
  | nil : Balanced []
  | visit {e e' : Event} {s s' : State} {inner rest : Log} (entered : e.isEnter = true) (left : e'.isEnter = false)
      (inside : Balanced inner) (onward : Balanced rest) : Balanced ((e, s) :: (inner ++ (e', s') :: rest))

theorem Balanced.append {log more : Log} (h : log.Balanced) (h' : more.Balanced) : Balanced (log ++ more) := by
  induction h with
  | nil => exact h'
  | @visit e e' s s' inner rest entered left inside onward ih ih' =>
    rw [List.cons_append, List.append_assoc, List.cons_append]
    exact .visit entered left inside ih'

/-- A log ends the visit that is open when it begins: it leaves that node after it has left
    all that it has entered itself. -/
def Leaves (log inner : Log) (e : Event) (s : State) (rest : Log) : Prop :=
  log = inner ++ (e, s) :: rest ∧ inner.Balanced ∧ e.isEnter = false

/-! ## Splitting -/

theorem append_eq_split {log more before after : Log} {point : Event × State} (h : log ++ more = before ++ point :: after) :
    (∃ after', log = before ++ point :: after' ∧ after = after' ++ more) ∨
      ∃ before', before = log ++ before' ∧ more = before' ++ point :: after := by
  rcases List.append_eq_append_iff.mp h with ⟨before', rfl, rest⟩ | ⟨after', rfl, rest⟩
  · exact .inr ⟨before', rfl, rest⟩
  · rcases List.cons_eq_append_iff.mp rest with ⟨rfl, rest⟩ | ⟨after'', rfl, rfl⟩
    · exact .inr ⟨[], by simp, rest.symm⟩
    · exact .inl ⟨after'', rfl, rfl⟩

theorem cons_eq_split {first point : Event × State} {log before after : Log} (h : first :: log = before ++ point :: after) :
    (before = [] ∧ first = point ∧ log = after) ∨ ∃ before', before = first :: before' ∧ log = before' ++ point :: after := by
  rcases List.cons_eq_append_iff.mp h with ⟨rfl, rest⟩ | ⟨before', rfl, rest⟩
  · cases rest
    exact .inl ⟨rfl, rfl, rfl⟩
  · exact .inr ⟨before', rfl, rest⟩

/-! ## Brackets -/

namespace Brackets
variable {opened left : List (NodeSummary × State)} {log more : Log}

theorem split (h : Brackets opened (log ++ more) left) :
    ∃ between, Brackets opened log between ∧ Brackets between more left := by
  induction log generalizing opened with
  | nil => exact ⟨opened, .nil, h⟩
  | cons entry log ih =>
    cases h with
    | enter nodes rest =>
      obtain ⟨between, first, second⟩ := ih rest
      exact ⟨between, .enter nodes first, second⟩
    | exit nodes same rest =>
      obtain ⟨between, first, second⟩ := ih rest
      exact ⟨between, .exit nodes same first, second⟩

/-- A balanced log leaves open what was open before. -/
theorem after_balanced (balanced : log.Balanced) (h : Brackets opened (log ++ more) left) : Brackets opened more left := by
  induction balanced generalizing opened more with
  | nil => exact h
  | @visit e e' s s' inner rest entered exited inside onward ih ih' =>
    rw [List.cons_append, List.append_assoc, List.cons_append] at h
    cases h with
    | exit => cases entered
    | enter nodes h =>
      cases ih h with
      | enter => cases exited
      | exit nodes same h => exact ih' h

/-- No event is deeper than what is open and, if it enters a node, that. -/
theorem depth_head {e : Event} {s : State} (h : Brackets opened ((e, s) :: log) left) : e.depth s ≤ opened.length + 1 := by
  cases h with
  | enter nodes rest =>
    show s.nodes.length ≤ _
    rw [nodes]
    simp
  | exit nodes same rest =>
    show s.nodes.length + 1 ≤ _
    rw [nodes]
    simp

/-- A visit that is open is left, in the state of control in which its node was entered, or it
    is still open at the end. Until it is left all events are deeper than its own. -/
theorem leaves_or_stays {n : NodeSummary} {u : State} (h : Brackets ((n, u) :: opened) log left) :
    (∃ inner v rest, log.Leaves inner (.exit n) v rest ∧ u.SameControl v ∧ v.nodes.length = opened.length ∧
      Brackets opened rest left ∧ ∀ entry ∈ inner, opened.length + 1 < entry.1.depth entry.2) ∨
    ∀ entry ∈ log, opened.length + 1 < entry.1.depth entry.2 := by
  induction size : log.length using Nat.strong_induction_on generalizing n u opened log with
  | _ size ih =>
    subst size
    cases h with
    | nil => exact .inr (List.forall_mem_nil _)
    | @exit _ _ _ _ v log nodes same rest =>
      exact .inl ⟨[], v, log, ⟨rfl, .nil, rfl⟩, same, by rw [nodes, List.length_map], rest, List.forall_mem_nil _⟩
    | @enter _ _ m s log nodes rest =>
      have deep : opened.length + 1 < (Event.enter m).depth s := by
        show _ < s.nodes.length
        rw [nodes]
        simp
      rcases ih log.length (Nat.lt_succ_self _) rest rfl with ⟨inner, v, after, ⟨rfl, balanced, exits⟩, same, visiting, onward, deeper⟩ | deeper
      · -- the node that is entered is left again, and the visit goes on after that
        have visited : opened.length + 1 < (Event.exit m).depth v := by
          show _ < v.nodes.length + 1
          rw [visiting, List.length_cons]
          exact Nat.lt_succ_self _
        have child (entry : Event × State) (member : entry ∈ inner) : opened.length + 1 < entry.1.depth entry.2 :=
          Nat.lt_of_succ_lt (deeper entry member)
        have shorter : after.length < ((Event.enter m, s) :: (inner ++ (Event.exit m, v) :: after)).length := by
          simp only [List.length_cons, List.length_append]
          omega
        rcases ih after.length shorter onward rfl with ⟨inner', v', rest', ⟨rfl, balanced', left'⟩, found⟩ | deeper'
        · obtain ⟨same', visiting', onward', deeper'⟩ := found
          refine .inl ⟨(.enter m, s) :: (inner ++ (.exit m, v) :: inner'), v', rest', ⟨by simp, .visit rfl rfl balanced balanced', rfl⟩,
            same', visiting', onward', ?_⟩
          exact List.forall_mem_cons.mpr ⟨deep, List.forall_mem_append.mpr ⟨child, List.forall_mem_cons.mpr ⟨visited, deeper'⟩⟩⟩
        · exact .inr (List.forall_mem_cons.mpr
            ⟨deep, List.forall_mem_append.mpr ⟨child, List.forall_mem_cons.mpr ⟨visited, deeper'⟩⟩⟩)
      · exact .inr (List.forall_mem_cons.mpr ⟨deep, fun entry member => Nat.lt_of_succ_lt (deeper entry member)⟩)

/-- A visit that all events are deeper than is not left by them. -/
theorem not_leaves {n : NodeSummary} {u : State} (h : Brackets ((n, u) :: opened) log left)
    (deeper : ∀ entry ∈ log, opened.length + 1 < entry.1.depth entry.2) {inner rest : Log} {e : Event} {s : State} :
    ¬ log.Leaves inner e s rest := by
  rintro ⟨rfl, balanced, exits⟩
  have deep := deeper (e, s) (by simp)
  cases h.after_balanced balanced with
  | enter => cases exits
  | exit nodes same rest =>
    change _ < s.nodes.length + 1 at deep
    rw [nodes, List.length_map] at deep
    exact Nat.lt_irrefl _ deep

end Brackets
end MiniC.Log
