import ClassCompiler.Proofs.Code.Execution
import ClassCompiler.Proofs.Code.StmtStack
import ClassCompiler.Proofs.Compiler

/-!
# Control flow of a unit

The code of a structured statement in an accepted unit makes the calls of the statement, in their
order, and ends as the statement does: behind its last instruction, at a label of the loop around it, or
with a return and the value of it. If the statement goes on for ever, so does the code. Up to any number
of steps, the code has made calls that the statement makes, too, and the other way round.

* `Stmt.Agrees`: what is shown of the code of a statement
* `Compiler.control_flow`
-/

namespace ClassCompiler

open Emit

/-! ## Whole runs -/

/-- Where the code of a statement stops if the statement has that outcome. -/
def Outcome.stop? (loop : Option LoopLabels) (frame : Frame) : Outcome → Option (Config Frame)
  | completes => some (.running [] frame)
  | breaks => loop.map fun labels => .left labels.onBreak frame
  | continues => loop.map fun labels => .left labels.onContinue frame
  | returns value => some (.returned { frame with stack := value.toList })
  | running => none

/-- How a statement has ended whose code stops there, and its calls. -/
def Config.outcome (loop : Option LoopLabels) : Config Frame → Outcome × List Call
  | running _ frame => (.completes, frame.calls)
  | left target frame =>
    (if loop.map LoopLabels.onBreak = some target then .breaks else .continues, frame.calls)
  | returned frame => (.returns frame.stack.head?, frame.calls)

section

variable {loop : Option LoopLabels} {stack : List Value} {locals : Nat → Value}
  {outcome : Outcome} {config : Config Frame}

theorem Outcome.isStopped_of_stop? {frame : Frame} (h : outcome.stop? loop frame = some config) :
    config.isStopped = true := by
  cases outcome <;> cases loop <;> cases h <;> rfl

/-- The place and the calls tell how a statement has ended. -/
theorem Outcome.eq_of_stop? (hloop : (loopTargets loop).Nodup) {after : List Call}
    (h : outcome.stop? loop ⟨stack, locals, after⟩ = some config) :
    config.outcome loop = (outcome, after) := by
  cases outcome with
  | completes =>
    cases h
    rfl
  | returns value =>
    cases h
    cases value <;> rfl
  | running => cases h
  | breaks =>
    obtain ⟨labels, rfl, rfl⟩ := Option.map_eq_some_iff.mp h
    exact congrArg (·, after) (if_pos rfl)
  | continues =>
    obtain ⟨labels, rfl, rfl⟩ := Option.map_eq_some_iff.mp h
    have hne : labels.onBreak ≠ labels.onContinue := by simpa [loopTargets] using hloop
    exact congrArg (·, after) (if_neg fun heq => hne (Option.some.inj heq))

end

/-- The code of a statement, run from its start, and what the statement does. -/
structure Stmt.Agrees (env : CodeEnv) (world : World) (locals : Nat → Value)
    (loop : Option LoopLabels) (s : Stmt) (code : List Instr) (stack : List Value)
    (calls : List Call) : Prop where
  /-- They end in the same way, after the same calls. -/
  stops : ∀ outcome after config, outcome.stop? loop ⟨stack, locals, after⟩ = some config →
    ((∃ bound, s.exec env.registry world locals bound calls = (outcome, after))
      ↔ ∃ n, (valueMachine world).Runs code n (.running code ⟨stack, locals, calls⟩) config)
  /-- They go on for ever together. -/
  runs : (∀ bound, (s.exec env.registry world locals bound calls).1 = .running)
    ↔ ∀ n, ∃ config,
      (valueMachine world).Runs code n (.running code ⟨stack, locals, calls⟩) config
  /-- They make the same calls up to any point of time. -/
  calls : ∀ made, (∃ bound, made <:+ (s.exec env.registry world locals bound calls).2)
    ↔ ∃ n config, (valueMachine world).Runs code n (.running code ⟨stack, locals, calls⟩) config
      ∧ made <:+ config.state.calls

section

variable {env : CodeEnv} {world : World} {locals : Nat → Value} {loop : Option LoopLabels}
  {s : Stmt} {next : Nat}

/-- For every bound, the code comes to where the statement ends; or it is running after so many
steps. -/
theorem Stmt.Executes.reaches {bound : Nat} (h : s.Executes env world locals bound loop)
    (hcode : (s.code env loop).Succeeds) (hfresh : ∀ label ∈ loopTargets loop, label.id < next)
    (stack : List Value) (calls : List Call)
    (hjump : (s.exec env.registry world locals bound calls).1.isJump = true → loop.isSome = true) :
    ∃ n config, (valueMachine world).Runs ((s.code env loop).run next).code n
        (.running ((s.code env loop).run next).code ⟨stack, locals, calls⟩) config
      ∧ config.state.calls = (s.exec env.registry world locals bound calls).2
      ∧ ((s.exec env.registry world locals bound calls).1 = .running ∧ bound ≤ n
        ∨ (s.exec env.registry world locals bound calls).1.stop? loop
          ⟨stack, locals, (s.exec env.registry world locals bound calls).2⟩ = some config) := by
  obtain ⟨n, config, hruns, hmet⟩ := h calls stack next _ [] (hcode.nodup_labels next)
    (by simp only [List.append_nil, List.suffix_rfl])
  rw [List.append_nil] at hruns
  refine ⟨n, config, hruns, ?_⟩
  have hleft : ∀ label ∈ loopTargets loop, ∀ frame : Frame,
      Config.land ((s.code env loop).run next).code label frame = .left label frame := by
    intro label hlabel frame
    have hnone : label ∉ labels ((s.code env loop).run next).code := fun hmem =>
      Nat.not_lt.mpr ((hcode.mem_labels next).mp hmem).1 (hfresh label hlabel)
    unfold Config.land
    rw [afterLabel?_eq_none.mpr hnone]
  rcases hexec : s.exec env.registry world locals bound calls with ⟨outcome, after⟩
  rw [hexec] at hmet hjump
  cases outcome with
  | completes | returns =>
    obtain ⟨rfl, -⟩ := hmet
    exact ⟨rfl, .inr rfl⟩
  | running =>
    obtain ⟨hle, hstate⟩ := hmet
    exact ⟨congrArg Frame.calls hstate, .inl ⟨rfl, hle⟩⟩
  | breaks =>
    obtain ⟨labels, rfl⟩ := Option.isSome_iff_exists.mp (hjump rfl)
    have hland := hleft labels.onBreak List.mem_cons_self ⟨stack, locals, after⟩
    rw [hmet.1.trans hland]
    exact ⟨rfl, .inr rfl⟩
  | continues =>
    obtain ⟨labels, rfl⟩ := Option.isSome_iff_exists.mp (hjump rfl)
    have hland := hleft labels.onContinue (List.mem_cons_of_mem _ List.mem_cons_self)
      ⟨stack, locals, after⟩
    rw [hmet.1.trans hland]
    exact ⟨rfl, .inr rfl⟩

theorem Stmt.agrees_of_executes (h : ∀ bound, s.Executes env world locals bound loop)
    (hcode : (s.code env loop).Succeeds) (hfresh : ∀ label ∈ loopTargets loop, label.id < next)
    (hloop : (loopTargets loop).Nodup) (stack : List Value) (calls : List Call)
    (hjump : ∀ bound, (s.exec env.registry world locals bound calls).1.isJump = true →
      loop.isSome = true) :
    s.Agrees env world locals loop ((s.code env loop).run next).code stack calls := by
  have hreaches := fun bound => (h bound).reaches hcode hfresh stack calls (hjump bound)
  have hone := valueMachine_deterministic world
  refine ⟨fun outcome after config hstop => ⟨?_, ?_⟩, ⟨?_, ?_⟩, fun made => ⟨?_, ?_⟩⟩
  · rintro ⟨bound, hexec⟩
    obtain ⟨n, config', hruns, -, hend⟩ := hreaches bound
    rw [hexec] at hend
    rcases hend with ⟨hrunning, -⟩ | hend
    · subst hrunning
      cases hstop
    · rw [hstop] at hend
      cases hend
      exact ⟨n, hruns⟩
  · rintro ⟨n, hruns⟩
    have hstopped := Outcome.isStopped_of_stop? hstop
    obtain ⟨m, config', hruns', -, hend⟩ := hreaches (n + 1)
    rcases hend with ⟨-, hle⟩ | hend
    · have := hone.le_of_stopped hruns hstopped hruns'
      omega
    · have heq := hone.eq_of_stopped hruns hstopped hruns' (Outcome.isStopped_of_stop? hend)
      subst heq
      exact ⟨n + 1, (Outcome.eq_of_stop? hloop hend).symm.trans (Outcome.eq_of_stop? hloop hstop)⟩
  · intro hrunning n
    obtain ⟨m, config, hruns, -, hend⟩ := hreaches n
    rcases hend with ⟨-, hle⟩ | hend
    · exact hruns.take hle
    · rw [hrunning n] at hend
      cases hend
  · intro hruns bound
    obtain ⟨m, config, hruns', -, hend⟩ := hreaches bound
    rcases hend with ⟨hrunning, -⟩ | hend
    · exact hrunning
    · obtain ⟨config', hlonger⟩ := hruns (m + 1)
      have := hone.le_of_stopped hruns' (Outcome.isStopped_of_stop? hend) hlonger
      omega
  · rintro ⟨bound, hmade⟩
    obtain ⟨n, config, hruns, hcalls, -⟩ := hreaches bound
    exact ⟨n, config, hruns, hcalls ▸ hmade⟩
  · rintro ⟨n, config, hruns, hmade⟩
    obtain ⟨m, config', hruns', hcalls, hend⟩ := hreaches n
    have hle : n ≤ m := by
      rcases hend with ⟨-, hle⟩ | hend
      · exact hle
      · exact hone.le_of_stopped hruns' (Outcome.isStopped_of_stop? hend) hruns
    exact ⟨n, hcalls ▸ hmade.trans (calls_grow (hone.extends hle hruns hruns'))⟩

end

/-! ## Units -/

namespace Compiler

variable {compiler : Compiler} {unit : CompilationUnit}

/-- In a unit that is analyzed without an error, the code of every statement of conditions and calls
runs as the statement does: wherever it stands, and by itself. -/
theorem control_flow (hreach : compiler.registry.Reachable)
    (hnames : unit.NamesApart (compiler.analysis unit).state)
    (herrors : (compiler.analysis unit).errors = []) :
    ∀ method ∈ (compiler.analysis unit).value.1.methods, ∃ signature,
      method.signature = some signature ∧ ∀ inLoop s, method.Has inLoop s →
      s.isStructured = true → ∀ registry world locals, s.HeldBy locals →
      ∀ loop : Option LoopLabels, (inLoop = true → loop.isSome) → (loopTargets loop).Nodup →
        (∀ bound, s.Executes { registry, returnTy := signature.returnTy } world locals bound loop)
        ∧ ∀ next, (∀ label ∈ loopTargets loop, label.id < next) →
          ((s.code { registry, returnTy := signature.returnTy } loop).run next).result = .ok ()
          ∧ ∀ stack calls, s.Agrees { registry, returnTy := signature.returnTy } world locals loop
            ((s.code { registry, returnTy := signature.returnTy } loop).run next).code stack
            calls := by
  intro method hmethod
  obtain ⟨decl, hdecl, hmember⟩ := CompilationUnit.mem_methods.mp hmethod
  obtain ⟨signature, frame, hanalyzed⟩ :=
    ((accepts_analysis hreach hnames herrors).types decl hdecl).members method hmember
  refine ⟨signature, hanalyzed.signature_eq, fun inLoop s hs hstructured registry world locals hheld
    loop hloop hnodup => ?_⟩
  have haccepted := hanalyzed.has hs
  have hexecutes : ∀ bound, s.Executes { registry, returnTy := signature.returnTy } world locals
      bound loop := fun bound => haccepted.executes rfl hstructured hheld world bound loop hloop
  have hcode := haccepted.succeeds { registry, returnTy := signature.returnTy } loop hloop
  refine ⟨hexecutes, fun next hfresh => ⟨hcode.result next, fun stack calls =>
    Stmt.agrees_of_executes hexecutes hcode hfresh hnodup stack calls fun bound hjump => hloop ?_⟩⟩
  by_contra hfalse
  have hstays := haccepted.isJump_exec registry world locals bound (Bool.eq_false_iff.mpr hfalse) calls
  rw [hstays] at hjump
  cases hjump

end Compiler

/-- The unit `class Main { static boolean more(int i) { return true; } static boolean run() { for (more(0);
!more(1); more(2)) { while (more(3) || !more(4)) { if (more(5)) break; else continue; } if (more(6))
return more(7) && more(8); } return false; } }`. -/
def moreUnit : CompilationUnit :=
  let more (i : Int32) (line : Nat) : Expr :=
    .call { line } none "more" [.literal { line } (.int i)] none
  { file := "Main.java"
    package := none
    imports := []
    types :=
      [{ line := 1
         mods := .accPublic
         name := "Main"
         isInterface := false
         superclass := none
         interfaces := []
         members :=
          [.method
            { line := 2
              mods := .accStatic
              name := "more"
              returnType := ⟨"boolean", 0, 2⟩
              params := [⟨2, "i", ⟨"int", 0, 2⟩⟩]
              exceptions := []
              body := some ⟨[.ret (some (.literal { line := 2 } (.bool true))) 2], 2⟩ },
           .method
            { line := 3
              mods := .accStatic
              name := "run"
              returnType := ⟨"boolean", 0, 3⟩
              params := []
              exceptions := []
              body := some
                ⟨[.forLoop (some (.exprs [more 0 4])) (some (.not { line := 4 } (more 1 4)))
                    [more 2 4]
                    (.block
                      [.whileLoop (.logical { line := 5 } .or (more 3 5)
                          (.not { line := 5 } (more 4 5)))
                        (.block [.branch (more 5 6) (.break 6) (some (.continue 6)) 6] 5) 5,
                       .branch (more 6 7)
                        (.ret (some (.logical { line := 7 } .and (more 7 7) (more 8 7))) 7) none 7]
                      4) 4,
                  .ret (some (.literal { line := 8 } (.bool false))) 8], 3⟩ }] }] }

theorem control_flow_more :
    Registry.builtin.Reachable ∧ moreUnit.NamesApart (Compiler.analysis {} moreUnit).state
      ∧ (Compiler.analysis {} moreUnit).errors = []
      ∧ ∃ method ∈ (Compiler.analysis {} moreUnit).value.1.methods, ∃ signature,
        method.signature = some signature ∧ ∃ s, method.Has false s ∧ s.isLoop = true
        ∧ s.isStructured = true ∧ s.HeldBy (fun _ => default) ∧ (loopTargets none).Nodup
        ∧ (∀ label ∈ loopTargets none, label.id < 0) ∧ ∀ stack calls,
          s.Agrees { registry := (Compiler.analysis {} moreUnit).state
                     returnTy := signature.returnTy } .zeros (fun _ => default) none
            ((s.code { registry := (Compiler.analysis {} moreUnit).state
                       returnTy := signature.returnTy } none).run 0).code stack calls := by
  have hnames : moreUnit.NamesApart (Compiler.analysis {} moreUnit).state :=
    ⟨by decide +kernel, by decide +kernel, by decide +kernel⟩
  have hclean : (Compiler.analysis {} moreUnit).errors = [] := by decide +kernel
  have hloop : ∃ method ∈ (Compiler.analysis {} moreUnit).value.1.methods,
      ∃ body ∈ method.body.toList, ∃ s ∈ body.stmts, s.isLoop = true ∧ s.isStructured = true
        ∧ ∀ d ∈ s.nodes, d.namedLocal? = none := by decide +kernel
  obtain ⟨method, hmethod, body, hbody, s, hs, hloop, hstructured, hlocals⟩ := hloop
  have hhas : method.Has false s := ⟨body, Option.mem_toList.mp hbody, s, hs, .self⟩
  have hheld : s.HeldBy fun _ => default := by
    intro d hd named hnamed
    rw [hlocals d hd] at hnamed
    cases hnamed
  have hfresh : ∀ label ∈ loopTargets none, label.id < 0 :=
    fun label hlabel => (List.not_mem_nil hlabel).elim
  obtain ⟨signature, hsignature, hflow⟩ :=
    Compiler.control_flow .builtin hnames hclean method hmethod
  obtain ⟨-, hruns⟩ := hflow false s hhas hstructured (Compiler.analysis {} moreUnit).state .zeros
    (fun _ => default) hheld none (fun h => by cases h) List.nodup_nil
  exact ⟨.builtin, hnames, hclean, method, hmethod, signature, hsignature, s, hhas, hloop,
    hstructured, hheld, List.nodup_nil, hfresh, (hruns 0 hfresh).2⟩

end ClassCompiler
