import MiniC.Proofs.Faults

/-!
# Jumps in well-formed programs

In a well-formed program every jump stands in a loop that takes it, and what stands where a
value is needed yields one. So no run of such programs tells of a jump outside a loop or of a
broken invariant, nor is it at a loss to tell of one, and the body of a function, called in whatever state a run leaves, even if
it has been halted, completes with a value (`well_formed_programs_keep_jumps`).
-/

namespace MiniC

/-- The nodes of a well-formed program stand where statements may, in no loop. -/
theorem Program.stands_of_wellFormed {p : Program} (formed : p.wellFormed = true) :
    ∀ n ∈ p.body, n.Stands true (.statement false) := fun n member _ => List.all_eq_true.mp formed n member

/-- A call of a function in some state: its frame, with the parameters bound, and the visit of
    its body. -/
def Closure.bodyFrom {σ : Type} (c : Closure) (ctx : Context σ) (fuel : Nat) (function : String) (arguments : List Value)
    (span : Option Span) (s : State) (w : σ) : Except Interrupt Completion × Machine σ :=
  Eval.runOn (do Eval.bindParams span (c.params.zip arguments); (Eval.visitor ctx fuel).node c.body) ⟨s.calling function, w⟩

/-- Well-formed programs, run one after the other under any settings and observers, never end
    with a jump outside a loop or a broken invariant, nor in the endless text of one. And whenever a run ends, halted or not,
    the body of every function that is declared completes with a value or a `return`, in a call
    from there with any arguments that have been computed. -/
theorem well_formed_programs_keep_jumps (tasks : List Task) (t : Task)
    (formed : ∀ u ∈ t :: tasks, u.program.wellFormed = true) :
    (∀ jump span, t.result (State.seeded.after tasks) ≠ .error (.error (.jumpOutsideLoop jump span))) ∧
    (∀ fault, t.result (State.seeded.after tasks) ≠ .error (.error (.invariant fault))) ∧
    t.result (State.seeded.after tasks) ≠ .error .endlessText ∧
    ∀ (name : String) (kind : Kind) (c : Closure),
      (t.run (State.seeded.after tasks)).2.global? name = some ⟨kind, .closure c⟩ →
      ∀ {σ : Type} (ctx : Context σ) (fuel : Nat) (function : String) (arguments : List Value) (span : Option Span) (w : σ),
        (∀ v ∈ arguments, v.Plain) →
        match (c.bodyFrom ctx fuel function arguments span (t.run (State.seeded.after tasks)).2 w).1 with
        | .ok done => ∃ v, done = .normal v ∨ done = .returned v
        | .error i =>
          (∀ jump span, i ≠ .error (.jumpOutsideLoop jump span)) ∧ (∀ fault, i ≠ .error (.invariant fault)) ∧ i ≠ .endlessText := by
  obtain ⟨first, others⟩ := List.forall_mem_cons.mp formed
  have before : (State.seeded.after tasks).Sound true :=
    (State.Sound.seeded true).after fun u member => Program.stands_of_wellFormed (others u member)
  obtain ⟨sound, justified⟩ := t.guarded before (Program.stands_of_wellFormed first)
  refine ⟨fun jump span failed => ?_, fun fault failed => ?_, fun ended => ?_,
    fun name kind c declared σ ctx fuel function arguments span w plain => ?_⟩
  · exact Bool.noConfusion (justified _ failed)
  · exact Bool.noConfusion (justified _ failed).1
  · exact Bool.noConfusion (justified _ ended).1
  · have body : c.body.Stands true (.statement false) := sound.functions 0 _ (Bindings.mem_of_get? declared) c rfl
    have called : ((t.run (State.seeded.after tasks)).2.calling function).Sound true :=
      (sound.pushInside (.call function) .global).restack rfl rfl
    have done := Eval.Guards.body (Eval.Guards.visits ctx true fuel) body plain span
      ⟨(t.run (State.seeded.after tasks)).2.calling function, w⟩ called
    unfold Closure.bodyFrom
    generalize Eval.runOn (do Eval.bindParams span (c.params.zip arguments); (Eval.visitor ctx fuel).node c.body)
      ⟨(t.run (State.seeded.after tasks)).2.calling function, w⟩ = outcome at done ⊢
    obtain ⟨⟨i⟩ | ⟨c'⟩, m⟩ := outcome
    · obtain ⟨-, due⟩ := done
      refine ⟨fun jump span same => ?_, fun fault same => ?_, fun same => ?_⟩ <;> subst same
      · exact Bool.noConfusion due
      · exact Bool.noConfusion due.1
      · exact Bool.noConfusion due.1
    · have admits := done.2.2 rfl
      cases c' with
      | normal v => exact ⟨v, .inl rfl⟩
      | returned v => exact ⟨v, .inr rfl⟩
      | jump j span => cases admits

/-- A function that leaves a loop by `break` inside another loop, halted in the loop and then
    called. -/
theorem well_formed_programs_keep_jumps_nested :
    let loop := Tree.whileLoop (Tree.bool true) (Tree.block [
      Tree.forLoop (some (Tree.var "int" "i" (some (Tree.num 0.0)))) none none (Tree.branch (Tree.bool true) Tree.breakLoop none),
      Tree.returnValue (some (Tree.num 2.0))])
    let f := Tree.func "int" "f" [] [loop]
    let halted : Task := ⟨{ entryPoint := some "f" }, .haltingAt fun _ s => s.steps == 14, (), 20, ⟨[f], none⟩⟩
    let t : Task := ⟨{ strategy := .lazy }, .silent, (), 20, ⟨[f, Tree.expr (Tree.call "f" [])], none⟩⟩
    (∀ u ∈ [t, halted], u.program.wellFormed = true) ∧
      ∀ jump span, t.result (State.seeded.after [halted]) ≠ .error (.error (.jumpOutsideLoop jump span)) := by
  intro loop f halted t
  have formed : ∀ u ∈ [t, halted], u.program.wellFormed = true := by
    refine List.forall_mem_cons.mpr ⟨by decide, List.forall_mem_singleton.mpr (by decide)⟩
  exact ⟨formed, (well_formed_programs_keep_jumps [halted] t formed).1⟩

end MiniC
