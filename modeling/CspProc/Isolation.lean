import CspProc.Lib.System
import CspProc.Nested
import CspProc.Server

/-! # A run and the store

A run copies only the procedure it was started with. What it calls is read
through pointers into the store, with the analysis that was made before, while
the server goes on serving requests. A push cannot change a slot that the
analysis has fetched, since it was occupied then; only deleting it can. So a
run is isolated from the store as long as no such slot is deleted under it
(`isolated_of_undisturbed`).
-/

namespace CspProc

variable {cfg : Config} {S : Type}

/-! ## A run next to the server -/

/-- The store and a run. -/
structure Live (S : Type) where
  store : Store
  run : RunState S

/-- What may happen next: the server serves a request, or the run makes a step. -/
inductive Live.Input (cfg : Config) where
  | serve (env : Env) (packet : Packet cfg)
  | step

/-- Whether the run made a step. -/
def Live.Input.isStep : Live.Input cfg → Bool
  | serve .. => false
  | step => true

/-- The run has ended, or has left the defined behaviour. -/
def Control.finished : Control → Bool
  | .fault | .returning _ [] => true
  | _ => false

section System

variable (p : Proc) (st : AnalysisState) (handlers : Handlers S) (maxDepth : Nat)

/-- The steps of the run read the store as it is by then, with the analyses
`st` that were made before. -/
def Live.next (live : Live S) : Live.Input cfg → Option (Live S)
  | .serve env packet =>
      (procServe env live.store packet).result.map fun r => { live with store := r.store }
  | .step =>
      some { live with
        run := (Interp.frozen live.store p st handlers maxDepth true).step live.run }

/-- The run as it starts when its analysis has succeeded. -/
def Live.start (store : Store) (params : S) : Live S :=
  ⟨store, (Interp.frozen store p st handlers maxDepth true).start params⟩

/-- The run is isolated from the requests: it is where as many steps on the
store of its analysis would have brought it, and the procedure that it executes
is the one that its analysis was computed for. -/
structure Isolated (store : Store) (params : S) (inputs : List (Live.Input cfg))
    (live : Live S) : Prop where
  executed : live.run = (Interp.frozen store p st handlers maxDepth true).steps
    (inputs.countP Live.Input.isStep)
    ((Interp.frozen store p st handlers maxDepth true).start params)
  analysed : ∀ f callers, live.run.control = .exec f callers →
    f.proc.deref p live.store = (st.node f.analysis).proc.deref p store

end System

/-- The input does not delete a slot that the analysis has fetched, unless the
run has ended. -/
def Undisturbing (st : AnalysisState) (live : Live S) : Live.Input cfg → Prop
  | .serve env packet =>
      env.mutexTake = true → packet.type = some .delRequest →
        live.run.control.finished = true ∨ st.analyses (packet.byte 1) = none
  | .step => True

instance (st : AnalysisState) (live : Live S) :
    (i : Live.Input cfg) → Decidable (Undisturbing st live i)
  | .serve _ _ => inferInstanceAs (Decidable (_ → _ → _))
  | .step => .isTrue .intro

/-! ## Steps -/

/-- A step reads no other procedure than that of its frame. -/
theorem Interp.step_congr (m : Interp S) {c : ProcRef → Proc} {r : RunState S}
    (h : ∀ f callers, r.control = .exec f callers → c f.proc = m.code f.proc) :
    { m with code := c }.step r = m.step r := by
  rcases r with ⟨control, d, e⟩
  cases control with
  | fault => rfl
  | returning ret callers => cases callers <;> rfl
  | exec f callers =>
      simp only [Interp.step, h f callers rfl]
      rfl

theorem Interp.step_of_finished (m : Interp S) {r : RunState S}
    (h : r.control.finished = true) : m.step r = r := by
  rcases r with ⟨control, d, e⟩
  cases control with
  | fault => rfl
  | exec => cases h
  | returning ret callers =>
      cases callers with
      | nil => rfl
      | cons => cases h

/-- `a` is the analysis of the run's own procedure, or was entered for the slot
that `ref` points to. -/
def Fetched (st : AnalysisState) (ref : ProcRef) (a : Nat) : Prop :=
  (ref = .root ∧ a = 0) ∨ ∃ s, ref = .slot s ∧ st.analyses s = some a

section Fetched

variable {store : Store} {p : Proc} {st : AnalysisState}

theorem Fetched.proc (hdone : AnalysisDone store p st) {ref : ProcRef} {a : Nat}
    (h : Fetched st ref a) : (st.node a).proc = ref := by
  rcases h with ⟨rfl, rfl⟩ | ⟨s, rfl, hs⟩
  · exact hdone.root.proc
  · exact (hdone.slots s a hs).proc

/-- The sub-analyses of a fetched analysis are fetched ones. -/
theorem Fetched.sub (hdone : AnalysisDone store p st) {ref : ProcRef} {a b : Nat}
    (h : Fetched st ref a) (hb : b ∈ (st.node a).subAnalyses) :
    Fetched st (st.node b).proc b := by
  have hentry : ∃ t, st.analyses t = some b := by
    -- the sub-analyses are the entries of slots, whatever the instructions
    have hmap : ∀ l, (st.node a).subAnalyses.map some = (fetchedSlots store l).map st.analyses →
        ∃ t, st.analyses t = some b := by
      intro l hl
      have hmem := List.mem_map_of_mem (f := some) hb
      rw [hl] at hmem
      rcases List.mem_map.mp hmem with ⟨t, -, ht⟩
      exact ⟨t, ht⟩
    rcases h with ⟨rfl, rfl⟩ | ⟨s, rfl, hs⟩
    · exact hmap _ hdone.root.subs
    · exact hmap _ (hdone.slots s a hs).subs
  rcases hentry with ⟨t, ht⟩
  exact .inr ⟨t, (hdone.slots t b ht).proc, ht⟩

/-- A run stays in fetched procedures, whatever the store becomes. -/
theorem step_fetched (hdone : AnalysisDone store p st) {m : Interp S} (hnode : m.node = st.node)
    {r : RunState S} (hr : r.control.All (Fetched st) True) :
    (m.step r).control.All (Fetched st) True := by
  refine step_all ?_ hr
  intro f callers r ins s hf hcallers _ _
  unfold Interp.procRuntimeCall
  simp only [hnode]
  split
  · exact endPass_all hf hcallers _ _
  · split
    case h_1 hsub =>
      have hfetched := hf.sub hdone (List.mem_of_getElem? hsub)
      split
      · exact ⟨hfetched, hcallers⟩
      · refine enter_all hfetched ?_ _
        simp only [List.mem_cons, forall_eq_or_imp]
        exact ⟨hf, hcallers⟩
    case h_2 => exact .intro

end Fetched

/-! ## Isolation -/

section Isolation

variable (store : Store) (p : Proc) (st : AnalysisState) (handlers : Handlers S) (maxDepth : Nat)
variable (params : S)

/-- What holds of a run that is left undisturbed: the fetched slots are as they
were, at least until the run has ended. -/
structure Undisturbed (inputs : List (Live.Input cfg)) (live : Live S) : Prop where
  executed : live.run = (Interp.frozen store p st handlers maxDepth true).steps
    (inputs.countP Live.Input.isStep)
    ((Interp.frozen store p st handlers maxDepth true).start params)
  frames : live.run.control.All (Fetched st) True
  kept : live.run.control.finished = false →
    ∀ s a, st.analyses s = some a → live.store s = store s

variable {store p st handlers maxDepth params}

/-- What a frame points to is what its analysis was made for. -/
theorem Undisturbed.deref_eq {inputs : List (Live.Input cfg)} {live : Live S}
    (h : Undisturbed store p st handlers maxDepth params inputs live) {f : Frame}
    {callers : List Frame} (hc : live.run.control = .exec f callers) :
    f.proc.deref p live.store = f.proc.deref p store := by
  have hframes := h.frames
  have hkept := h.kept
  rw [hc] at hframes hkept
  rcases hframes.1 with ⟨hroot, -⟩ | ⟨s, hslot, hs⟩
  · rw [hroot]
    rfl
  · rw [hslot]
    exact hkept rfl s _ hs

/-- A step goes as it would on the store of the analysis. -/
theorem Undisturbed.step (hdone : AnalysisDone store p st) {inputs : List (Live.Input cfg)}
    {live : Live S} (h : Undisturbed store p st handlers maxDepth params inputs live) :
    Undisturbed store p st handlers maxDepth params (inputs ++ [.step])
      { live with
        run := (Interp.frozen live.store p st handlers maxDepth true).step live.run } := by
  have hstep : (Interp.frozen live.store p st handlers maxDepth true).step live.run =
      (Interp.frozen store p st handlers maxDepth true).step live.run :=
    (Interp.frozen store p st handlers maxDepth true).step_congr fun _ _ hc => h.deref_eq hc
  refine ⟨?_, step_fetched hdone rfl h.frames, ?_⟩
  · have hcount : (inputs ++ [Live.Input.step]).countP Live.Input.isStep =
        inputs.countP Live.Input.isStep + 1 := List.countP_append
    rw [hcount, Interp.steps_succ, ← h.executed]
    exact hstep
  · intro hgoing
    refine h.kept ?_
    cases hfin : live.run.control.finished with
    | false => rfl
    | true =>
        -- a run that has ended does not go on
        simp only [Interp.step_of_finished _ hfin, hfin] at hgoing
        cases hgoing

/-- A request that does not delete a fetched slot does not change one. -/
theorem Undisturbed.serve (hdone : AnalysisDone store p st) {inputs : List (Live.Input cfg)}
    {live : Live S} (h : Undisturbed store p st handlers maxDepth params inputs live)
    {env : Env} {packet : Packet cfg} {r : Served cfg}
    (hok : Undisturbing st live (.serve env packet))
    (hr : (procServe env live.store packet).result = some r) :
    Undisturbed store p st handlers maxDepth params (inputs ++ [.serve env packet])
      { live with store := r.store } := by
  refine ⟨?_, h.frames, ?_⟩
  · rw [h.executed, List.countP_append]
    rfl
  · intro hgoing s a hs
    have hkept := h.kept hgoing s a hs
    change r.store s = store s
    rcases procServe_store hr with hsame | ⟨hmutex, htype, hset⟩ | ⟨hempty, q, hset⟩
    · rw [hsame, hkept]
    · -- a deletion, of a slot that was not fetched
      rcases hok hmutex htype with hfin | hnone
      · rw [hfin] at hgoing
        cases hgoing
      · have hne : s ≠ packet.byte 1 := fun heq => by rw [heq, hnone] at hs; cases hs
        rw [hset, Function.update_of_ne hne, hkept]
    · -- a push, into a slot that was empty
      have hne : s ≠ packet.byte 1 := by
        rintro rfl
        have hocc := hdone.wf.occupied _ a hs
        rw [Store.occupied, ← hkept] at hocc
        rw [Store.occupied, hocc] at hempty
        cases hempty
      rw [hset, Function.update_of_ne hne, hkept]

/-- A run whose analysis has succeeded is isolated from all requests that do
not delete, while it runs, a slot that the analysis has fetched. -/
theorem isolated_of_undisturbed (hst : runAnalysis store p = some (0, st))
    {inputs : List (Live.Input cfg)} {live : Live S}
    (h : Reaches (Live.next p st handlers maxDepth) (Undisturbing st)
      (Live.start p st handlers maxDepth store params) inputs live) :
    Isolated p st handlers maxDepth store params inputs live := by
  have hdone := AnalysisDone.of_run hst
  have hinv : Undisturbed store p st handlers maxDepth params inputs live := by
    refine Reaches.invariant (P := Undisturbed store p st handlers maxDepth params) ?_ ?_ h
    · exact ⟨rfl, enter_all (.inl ⟨rfl, rfl⟩) (by simp) _, fun _ _ _ _ => rfl⟩
    · intro is t i u ht hok hnext
      cases i with
      | step =>
          cases hnext
          exact ht.step hdone
      | serve env packet =>
          rcases Option.map_eq_some_iff.mp hnext with ⟨r, hr, rfl⟩
          exact ht.serve hdone hok hr
  refine ⟨hinv.executed, ?_⟩
  intro f callers hc
  have hframes := hinv.frames
  rw [hc] at hframes
  rw [hinv.deref_eq hc, hframes.1.proc hdone]

end Isolation

/-- The procedure in slot 1 sets two parameters. -/
def calleeStore : Store := fun s =>
  if s = 1 then ⟨[⟨1, .setNil⟩, ⟨2, .setNil⟩], by decide⟩ else Proc.empty

/-- A call of slot 1, and more after it. -/
def callerProc : Proc := ⟨[⟨3, .call 1⟩, ⟨4, .setNil⟩], by decide⟩

/-- What the analysis of the caller leaves. -/
def callerAnalysis : AnalysisState :=
  ((runAnalysis calleeStore callerProc).get (by decide)).2

theorem callerAnalysis_eq : runAnalysis calleeStore callerProc = some (0, callerAnalysis) := by
  have hret : ((runAnalysis calleeStore callerProc).get (by decide)).1 = 0 := by decide
  rw [← Option.some_get (x := runAnalysis calleeStore callerProc) (by decide)]
  exact congrArg some (Prod.ext hret rfl)

/-- Another slot is deleted, and a push to slot 1 is refused. -/
def harmlessInputs : List (Live.Input .default) :=
  [.step, .serve .working (.ofBytes [0x80, 2] [] (by decide)),
    .serve .working (.ofBytes [0x84, 1, 1, 9, 0, 2, 0, 0] [] (by decide)), .step]

theorem harmlessInputs_taken :
    (harmlessInputs.foldlM
      (guarded (Live.next callerProc callerAnalysis countHandlers 4) (Undisturbing callerAnalysis))
      (Live.start callerProc callerAnalysis countHandlers 4 calleeStore 0)).isSome = true := by
  decide +kernel

theorem isolated_of_undisturbed_harmlessInputs :
    ∃ live, Reaches (Live.next callerProc callerAnalysis countHandlers 4)
        (Undisturbing callerAnalysis)
        (Live.start callerProc callerAnalysis countHandlers 4 calleeStore 0) harmlessInputs live ∧
      Isolated callerProc callerAnalysis countHandlers 4 calleeStore 0 harmlessInputs live := by
  have hreaches := Reaches.of_foldlM (Option.some_get harmlessInputs_taken).symm
  exact ⟨_, hreaches, isolated_of_undisturbed callerAnalysis_eq hreaches⟩

/-- After the call of slot 1 has been entered, the slot is deleted and another
procedure pushed to it, and the run executes that one. -/
def replacingInputs : List (Live.Input .default) :=
  [.step, .serve .working (.ofBytes [0x80, 1] [] (by decide)),
    .serve .working (.ofBytes [0x84, 1, 1, 9, 0, 2, 0, 0] [] (by decide)), .step]

theorem replacingInputs_taken :
    (replacingInputs.foldlM
      (guarded (Live.next callerProc callerAnalysis countHandlers 4) fun _ _ => True)
      (Live.start callerProc callerAnalysis countHandlers 4 calleeStore 0)).isSome = true := by
  decide +kernel

/-- The run executes an instruction that no procedure had when it was analysed. -/
theorem run_executes_replaced_callee :
    runAnalysis calleeStore callerProc = some (0, callerAnalysis) ∧
    ∃ live, Reaches (Live.next callerProc callerAnalysis countHandlers 4) (fun _ _ => True)
        (Live.start callerProc callerAnalysis countHandlers 4 calleeStore 0) replacingInputs live ∧
      live.run.effects.trace = [⟨3, .call 1⟩, ⟨9, .setNil⟩] ∧
      ¬ Isolated callerProc callerAnalysis countHandlers 4 calleeStore 0 replacingInputs live := by
  refine ⟨callerAnalysis_eq, Option.get _ replacingInputs_taken,
    .of_foldlM (Option.some_get replacingInputs_taken).symm, by decide +kernel, ?_⟩
  intro h
  have htrace := congrArg (fun r => r.effects.trace) h.executed
  revert htrace
  decide +kernel

end CspProc
