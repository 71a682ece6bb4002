import CspProc.Registers
import CspProc.TaskDepth
import Mathlib.Data.Nat.Fib.Basic

/-! # The Fibonacci procedures

The two procedures of the README that compute Fibonacci numbers. The second one
calls itself as its else-clause, once for each number.

* `tailCalls_run` — procedures whose calls are all tail calls run in one frame, and
  return what the nested reading returns with as many entries as it takes;
* `loop_succeeds` — the loop invariant, over the nested reading;
* `fibonacci_run` — a whole run.
-/

namespace CspProc

/-! ## One frame -/

section OneFrame

variable {S : Type} {store : Store} {p : Proc} {st : AnalysisState} {m : Interp S}

/-- Every call of a procedure is marked as a tail call. -/
def callsMarked (l : List ProcInstruction) : Bool :=
  (List.range l.length).all fun i =>
    (l[i]?.bind fun ins => ins.instruction.callSlot).isNone || analyzeTailCall l i

theorem marked_of_callsMarked {l : List ProcInstruction} (h : callsMarked l = true) {i : Nat}
    {ins : ProcInstruction} {s : UInt8} (hins : l[i]? = some ins)
    (hcall : ins.instruction = .call s) : analyzeTailCall l i = true := by
  have hlt : i < l.length := (List.getElem?_eq_some_iff.mp hins).1
  have hi := List.all_eq_true.mp h i (List.mem_range.mpr hlt)
  simpa [hins, hcall, Instruction.callSlot] using hi

/-- A run is in the only frame there is, which has the procedure of its analysis, or
has come to its end. -/
structure InOneFrame (st : AnalysisState) (r : RunState S) : Prop where
  analysed : r.control.All (AnalysedAs st) False
  single : (∃ f, r.control = .exec f []) ∨ ∃ ret, r.control = .returning ret []
  notRefused : r.effects.limitReached = false

theorem InOneFrame.frames_le {r : RunState S} (h : InOneFrame st r) :
    r.control.frames.length ≤ 1 := by
  rcases h.single with ⟨f, hr⟩ | ⟨ret, hr⟩
  · rw [hr]
    exact Nat.le_refl 1
  · rw [hr]
    exact Nat.zero_le 1

namespace OnGraph

/-- The first entry is within every limit. -/
theorem start_oneFrame (h : OnGraph store p st m) (params : S) :
    InOneFrame st (m.start params) := by
  unfold Interp.start
  rw [m.enter_of_le _ _ _ (Nat.zero_le _)]
  exact ⟨⟨h.root_analysed, by simp⟩, .inl ⟨_, rfl⟩, rfl⟩

theorem step_oneFrame (h : OnGraph store p st m) (hreuse : m.reuseFrames = true)
    (htail : OnlyTailCalls store p) {r : RunState S} (hr : InOneFrame st r) :
    InOneFrame st (m.step r) := by
  have hanalysed := h.step_ok hr.analysed
  rcases hr.single with ⟨f, hexec⟩ | ⟨ret, hreturning⟩
  · have hf : AnalysedAs st f.proc f.analysis := by
      have hall := hr.analysed
      rw [hexec] at hall
      exact hall.1
    have hcalls : ∀ ins s, f.flag ≠ .isFalse → (m.code f.proc).instructions[f.i]? = some ins →
        ins.instruction = .call s → analyzeTailCall (m.code f.proc).instructions f.i = true := by
      intro ins s _ hins hcall
      rw [h.code] at hins ⊢
      exact htail f.proc (h.ref_reachable hf) f.i ins s hins hcall
    rcases h.step_inFrame hreuse hexec hf hcalls with ⟨hnext, hlimit⟩
    exact ⟨hanalysed, hnext, hlimit.trans hr.notRefused⟩
  · -- the run stays at its end
    rcases r with ⟨control, d, e⟩
    rcases hreturning with rfl
    exact hr

/-- Where all calls are tail calls, a run never leaves its first frame, and no call
is refused. -/
theorem steps_oneFrame (h : OnGraph store p st m) (hreuse : m.reuseFrames = true)
    (htail : OnlyTailCalls store p) (params : S) (n : Nat) :
    InOneFrame st (m.steps n (m.start params)) :=
  Runs.preserves (fun _ => h.step_oneFrame hreuse htail) ⟨n, rfl⟩ (h.start_oneFrame params)

end OnGraph

/-- Procedures whose calls are all tail calls run in one frame, whatever the limit
is, and return what the nested reading returns with as many entries as it takes. -/
theorem tailCalls_run (store : Store) (p : Proc) (hc : Closed store p)
    (htail : OnlyTailCalls store p)
    (hrestricted : ∀ ref : ProcRef, (ref = .root ∨ ∃ s, ref = .slot s ∧ ReachableSlot store p s) →
      Restricted (ref.deref p store).instructions)
    (handlers : Handlers S) (maxDepth : Nat) :
    ∃ m, runtimeThread store p handlers maxDepth = some m ∧ ∀ params,
      (∀ k, (execNested handlers store k p ⟨params, [], false⟩).2.limitReached = false →
        Runs m.step (m.start params)
          (.returned [] 0 (execNested handlers store k p ⟨params, [], false⟩))) ∧
      ∀ n, (m.steps n (m.start params)).control.frames.length ≤ 1 := by
  rcases onGraph_of_closed (S := S) hc with ⟨st, hrun, hgraph⟩
  have h := hgraph handlers maxDepth true
  refine ⟨.frozen store p st handlers maxDepth true, ?_, ?_⟩
  · rw [runtimeThread_eq store p handlers maxDepth hrun, if_neg (by simp)]
  intro params
  constructor
  · intro k hk
    have hreuse := h.enter_reused rfl (fun ref a ha => hrestricted ref (h.ref_reachable ha)) k k
      (d := 0) (by omega) h.root_analysed [] (.returning 0 []) ⟨params, [], false⟩
    refine hreuse.runs ?_ ?_
    · intro hlost
      rw [LimitReached, RunState.returned] at hlost
      exact absurd (hk.symm.trans hlost) (by simp)
    · rintro u ⟨n, rfl⟩ ⟨-, hlimit⟩
      have hnot := (h.steps_oneFrame rfl htail params n).notRefused
      exact absurd (hnot.symm.trans hlimit) (by simp)
  · intro n
    exact (h.steps_oneFrame rfl htail params n).frames_le

end OneFrame

/-! ## The procedures -/

/-- The parameters of the example. -/
inductive Register where
  | n
  | zero
  | rx0
  | rx1
  | rx2
deriving DecidableEq, Repr

/-- `n`, `_zero`, `rx0`, `rx1` and `rx2`. -/
def Register.name : Register → CStr
  | n => .ofBytes [110] rfl
  | zero => .ofBytes [95, 122, 101, 114, 111] rfl
  | rx0 => .ofBytes [114, 120, 48] rfl
  | rx1 => .ofBytes [114, 120, 49] rfl
  | rx2 => .ofBytes [114, 120, 50] rfl

/-- The values `0` and `1`. -/
def zeroText : CStr := ⟨[48], by decide⟩
def oneText : CStr := ⟨[49], by decide⟩

open Register in
/-- Procedure 0 (initialization). -/
def fibonacciInit (node : UInt16) : Proc where
  instructions :=
    [⟨node, .set zero.name zeroText⟩,
      ⟨node, .set rx0.name zeroText⟩,
      ⟨node, .set rx1.name oneText⟩,
      ⟨node, .ifelse n.name ComparisonOp.gt.code zero.name⟩,
      ⟨node, .call 1⟩]
  length_le := Nat.le_of_ble_eq_true rfl

open Register in
/-- Procedure 1 (calculation). -/
def fibonacciStep (node : UInt16) : Proc where
  instructions :=
    [⟨node, .binop rx0.name BinaryOp.add.code rx1.name rx2.name⟩,
      ⟨node, .unop rx1.name UnaryOp.idt.code rx0.name⟩,
      ⟨node, .unop rx2.name UnaryOp.idt.code rx1.name⟩,
      ⟨node, .unop n.name UnaryOp.dec.code n.name⟩,
      ⟨node, .ifelse n.name ComparisonOp.eq.code zero.name⟩,
      ⟨node, .noop⟩,
      ⟨node, .call 1⟩]
  length_le := Nat.le_of_ble_eq_true rfl

section Slots

variable {store : Store} {node : UInt16}

/-- The procedures are stored in slots 0 and 1. -/
structure StoresFibonacci (store : Store) (node : UInt16) : Prop where
  init : store 0 = fibonacciInit node
  step : store 1 = fibonacciStep node

/-- Only slot 1 is called. -/
theorem StoresFibonacci.reachable (h : StoresFibonacci store node) {s : UInt8}
    (hs : ReachableSlot store (store 0) s) : s = 1 := by
  have hcovers : coversCalls store (store 0) [1] = true := by
    unfold coversCalls
    simp only [List.map_cons, List.map_nil, h.init, h.step]
    rfl
  exact List.mem_singleton.mp (hs.mem hcovers)

theorem StoresFibonacci.closed (h : StoresFibonacci store node) : Closed store (store 0) := by
  intro s hs
  rw [h.reachable hs, Store.occupied, h.step]
  rfl

/-- A run executes the two procedures only. -/
theorem StoresFibonacci.reached (h : StoresFibonacci store node) {ref : ProcRef}
    (href : ref = .root ∨ ∃ s, ref = .slot s ∧ ReachableSlot store (store 0) s) :
    ref.deref (store 0) store = fibonacciInit node ∨
      ref.deref (store 0) store = fibonacciStep node := by
  rcases href with rfl | ⟨s, rfl, hs⟩
  · exact .inl h.init
  · rw [h.reachable hs]
    exact .inr h.step

theorem StoresFibonacci.onlyTailCalls (h : StoresFibonacci store node) :
    OnlyTailCalls store (store 0) := by
  intro ref href i ins s hins hcall
  rcases h.reached href with heq | heq
  · rw [heq] at hins ⊢
    exact marked_of_callsMarked (l := (fibonacciInit node).instructions) rfl hins hcall
  · rw [heq] at hins ⊢
    exact marked_of_callsMarked (l := (fibonacciStep node).instructions) rfl hins hcall

theorem StoresFibonacci.restricted (h : StoresFibonacci store node) {ref : ProcRef}
    (href : ref = .root ∨ ∃ s, ref = .slot s ∧ ReachableSlot store (store 0) s) :
    Restricted (ref.deref (store 0) store).instructions := by
  rcases h.reached href with heq | heq
  · rw [heq]
    exact of_decide_eq_true rfl
  · rw [heq]
    exact of_decide_eq_true rfl

end Slots

/-! ## The loop -/

theorem IntegerType.wrap_unsigned {t : IntegerType} (ht : t.signed = false) (x : Int) :
    t.wrap x = x % 2 ^ t.width := by
  unfold wrap TwosComplement.reduce
  rw [ht]
  rfl

/-- The sum of two numbers that have been converted, converted. -/
theorem IntegerType.wrap_add (t : IntegerType) (x y : Int) :
    t.wrap (t.wrap x + t.wrap y) = t.wrap (x + y) := by
  rw [t.wrap_eq_iff, Int.add_emod, t.wrap_emod, t.wrap_emod, ← Int.add_emod]

/-- The registers after a pass of the procedure in slot 1. -/
def Register.pass (t : IntegerType) (v : Register → Int) : Register → Int
  | n => t.wrap (v n - 1)
  | zero => v zero
  | rx0 => t.wrap (v rx1)
  | rx1 => t.wrap (t.wrap (v rx0 + v rx1))
  | rx2 => t.wrap (v rx0 + v rx1)

/-- The loop invariant: `rx0` and `rx1` hold a Fibonacci number and the next one, and
`k` numbers are left. -/
structure Computing (t : IntegerType) (j k : Nat) (v : Register → Int) : Prop where
  n : v .n = k
  zero : v .zero = 0
  rx0 : v .rx0 = t.wrap (Nat.fib j)
  rx1 : v .rx1 = t.wrap (Nat.fib (j + 1))

/-- A pass computes the next number. -/
theorem Computing.pass {t : IntegerType} {j k : Nat} {v : Register → Int}
    (h : Computing t j (k + 1) v) (hk : t.wrap k = k) :
    Computing t (j + 1) k (Register.pass t v) where
  n := by
    show t.wrap (v .n - 1) = k
    rw [h.n]
    push_cast
    rw [Int.add_sub_cancel, hk]
  zero := h.zero
  rx0 := by
    show t.wrap (v .rx1) = _
    rw [h.rx1, t.wrap_wrap]
  rx1 := by
    show t.wrap (t.wrap (v .rx0 + v .rx1)) = _
    rw [h.rx0, h.rx1, t.wrap_wrap, t.wrap_add, Nat.fib_add_two]
    push_cast
    rfl

section Statements

open Register Structured

variable {S : Type} (handlers : Handlers S) (call : UInt8 → Cmd (Effects S)) (node : UInt16)

/-- The condition in slot 0, with its only clause. -/
def initCondition : Stmt :=
  .ifelse ⟨node, .ifelse n.name ComparisonOp.gt.code zero.name⟩ (some ⟨node, .call 1⟩) none

/-- The condition in slot 1. -/
def stepCondition : Stmt :=
  .ifelse ⟨node, .ifelse n.name ComparisonOp.eq.code zero.name⟩ (some ⟨node, .noop⟩)
    (some ⟨node, .call 1⟩)

theorem execNested_succ (store : Store) (k : Nat) {p : Proc} (hp : Restricted p.instructions) :
    execNested handlers store (k + 1) p =
      exec handlers (fun s => execNested handlers store k (store s)) p.instructions :=
  execLoop_eq_structured handlers _ p.instructions hp

theorem exec_fibonacciInit : exec handlers call (fibonacciInit node).instructions =
    Cmd.block [execPlain handlers call ⟨node, .set zero.name zeroText⟩,
      execPlain handlers call ⟨node, .set rx0.name zeroText⟩,
      execPlain handlers call ⟨node, .set rx1.name oneText⟩,
      execStmt handlers call (initCondition node)] := rfl

theorem exec_fibonacciStep : exec handlers call (fibonacciStep node).instructions =
    Cmd.block [
      execPlain handlers call ⟨node, .binop rx0.name BinaryOp.add.code rx1.name rx2.name⟩,
      execPlain handlers call ⟨node, .unop rx1.name UnaryOp.idt.code rx0.name⟩,
      execPlain handlers call ⟨node, .unop rx2.name UnaryOp.idt.code rx1.name⟩,
      execPlain handlers call ⟨node, .unop n.name UnaryOp.dec.code n.name⟩,
      execStmt handlers call (stepCondition node)] := rfl

end Statements

section Loop

open Register

variable {P F T : Type} {h : RuntimeHost P F T} {f : RegisterFile Register} {node : UInt16}
variable {store : Store} {call : UInt8 → Cmd (Effects (Session P))}
variable {Q Q' : (Register → Int) → Prop}

/-- The instructions in front of the condition make a pass. -/
theorem step_succeeds (hlib : h.lib.LocalMemory)
    (hcondition : Cmd.Succeeds (h.Registers name f node Q) (h.Registers name f node Q')
      (Structured.execStmt h.handlers call (stepCondition node))) :
    Cmd.Succeeds (h.Registers name f node fun v => Q (pass f.integer v))
      (h.Registers name f node Q')
      (Structured.exec h.handlers call (fibonacciStep node).instructions) := by
  rw [exec_fibonacciStep]
  refine Cmd.Succeeds.of_imp
    (.cons (RuntimeHost.binop_rule hlib (by decide) rx0 rx1 rx2 _)
      (.cons (RuntimeHost.unop_rule hlib (.inl (by decide)) rx1 rx0 _)
        (.cons (RuntimeHost.unop_rule hlib (.inl (by decide)) rx2 rx1 _)
          (.cons (RuntimeHost.unop_rule hlib (.inl (by decide)) n n _)
            (.cons hcondition .nil))))) ?_
  intro e he
  refine he.mono ?_
  intro v hv
  refine ⟨by simp, ?_⟩
  -- four assignments make a pass
  convert hv using 1
  funext r
  cases r with
  | n | zero | rx0 | rx1 | rx2 => rfl

/-- A pass, and what follows it: nothing after the last number, the call before. -/
theorem iteration_succeeds (hlib : h.lib.LocalMemory) {j k : Nat} (hk : f.integer.wrap k = k)
    (hcall : k ≠ 0 → Cmd.Succeeds (h.Registers name f node (Computing f.integer (j + 1) k))
      (h.Registers name f node fun v => v rx0 = f.integer.wrap (Nat.fib (j + k + 1))) (call 1)) :
    Cmd.Succeeds (h.Registers name f node (Computing f.integer j (k + 1)))
      (h.Registers name f node fun v => v rx0 = f.integer.wrap (Nat.fib (j + k + 1)))
      (Structured.exec h.handlers call (fibonacciStep node).instructions) := by
  have hcondition : Cmd.Succeeds (h.Registers name f node (Computing f.integer (j + 1) k))
      (h.Registers name f node fun v => v rx0 = f.integer.wrap (Nat.fib (j + k + 1)))
      (Structured.execStmt h.handlers call (stepCondition node)) := by
    refine RuntimeHost.ifelse_rule .eq n zero ?_ ?_
    · -- the if-clause does nothing, and there is nothing left to do
      refine Cmd.Succeeds.skip.of_imp ?_
      intro e he
      refine he.mono ?_
      rintro v ⟨hv, heq⟩
      rw [ComparisonOp.holds_eq_iff, hv.n, hv.zero] at heq
      have hzero : k = 0 := by exact_mod_cast heq
      rw [hv.rx0, hzero, Nat.add_zero]
    · refine (RuntimeHost.call_rule ?_).of_imp fun e he => he
      intro e he
      have hne : k ≠ 0 := by
        intro hzero
        have heq := he.values.2
        rw [← Bool.not_eq_true, ComparisonOp.holds_eq_iff, he.values.1.n, he.values.1.zero] at heq
        exact heq (by exact_mod_cast hzero)
      exact hcall hne e (he.mono fun v hv => hv.1)
  refine (step_succeeds hlib hcondition).of_imp ?_
  intro e he
  exact he.mono fun v hv => hv.pass hk

/-- The loop makes one pass for each number that is left. -/
theorem loop_succeeds (hlib : h.lib.LocalMemory) (hstep : store 1 = fibonacciStep node)
    (k : Nat) (hk : ∀ i ≤ k, f.integer.wrap i = i) (j : Nat) :
    Cmd.Succeeds (h.Registers name f node (Computing f.integer j (k + 1)))
      (h.Registers name f node fun v => v rx0 = f.integer.wrap (Nat.fib (j + k + 1)))
      (execNested h.handlers store (k + 1) (store 1)) := by
  induction k generalizing j with
  | zero =>
      rw [hstep, execNested_succ _ _ _ (of_decide_eq_true rfl)]
      refine iteration_succeeds hlib (hk 0 (Nat.le_refl 0)) ?_
      intro hne
      exact absurd rfl hne
  | succ k ih =>
      have hrest := ih (fun i hi => hk i (by omega)) (j + 1)
      rw [hstep, execNested_succ _ _ _ (of_decide_eq_true rfl)]
      refine iteration_succeeds hlib (hk (k + 1) (Nat.le_refl _)) ?_
      intro _
      rwa [show j + 1 + k + 1 = j + (k + 1) + 1 by omega] at hrest

/-- Procedure 0 sets the registers up, and enters the loop if there is anything to
compute. -/
theorem fibonacci_succeeds (hlib : h.lib.LocalMemory)
    (hzero : h.lib.Parses f.type f.integer zeroText 0)
    (hone : h.lib.Parses f.type f.integer oneText 1) (hstore : StoresFibonacci store node)
    (k : Nat) (hk : ∀ i ≤ k, f.integer.wrap i = i) :
    Cmd.Succeeds (h.Registers name f node fun v => v n = k)
      (h.Registers name f node fun v => v rx0 = f.integer.wrap (Nat.fib k))
      (execNested h.handlers store (k + 1) (store 0)) := by
  have hcondition : Cmd.Succeeds (h.Registers name f node (Computing f.integer 0 k))
      (h.Registers name f node fun v => v rx0 = f.integer.wrap (Nat.fib k))
      (Structured.execStmt h.handlers (fun s => execNested h.handlers store k (store s))
        (initCondition node)) := by
    refine RuntimeHost.ifelse_rule .gt n zero ?_ ?_
    · refine (RuntimeHost.call_rule ?_).of_imp fun e he => he
      intro e he
      have hgt := he.values.2
      rw [ComparisonOp.holds_gt_iff, he.values.1.n, he.values.1.zero] at hgt
      rcases Nat.exists_eq_succ_of_ne_zero (show k ≠ 0 by omega) with ⟨i, rfl⟩
      have hloop := loop_succeeds (f := f) hlib hstore.step i (fun i' hi => hk i' (by omega)) 0
      rw [Nat.zero_add] at hloop
      exact hloop e (he.mono fun v hv => hv.1)
    · -- there is no else-clause
      refine Cmd.Succeeds.skip.of_imp ?_
      intro e he
      refine he.mono ?_
      rintro v ⟨hv, hle⟩
      rw [← Bool.not_eq_true, ComparisonOp.holds_gt_iff, hv.n, hv.zero] at hle
      rw [hv.rx0, show k = 0 by omega]
  rw [hstore.init, execNested_succ _ _ _ (of_decide_eq_true rfl), exec_fibonacciInit]
  refine Cmd.Succeeds.of_imp
    (.cons (RuntimeHost.set_rule hlib hzero zero _)
      (.cons (RuntimeHost.set_rule hlib hzero rx0 _)
        (.cons (RuntimeHost.set_rule hlib hone rx1 _) (.cons hcondition .nil)))) ?_
  intro e he
  refine he.mono ?_
  intro v hv
  constructor
  · exact hv
  · rfl
  · exact hzero.wrap_eq.symm
  · exact hone.wrap_eq.symm

end Loop

/-- What an unsigned type holds, it holds with all smaller numbers. -/
theorem IntegerType.wrap_of_le {t : IntegerType} (ht : t.signed = false) {number i : Nat}
    (hnumber : t.wrap number = number) (hi : i ≤ number) : t.wrap i = i := by
  rw [t.wrap_unsigned ht] at hnumber ⊢
  have hlt : (number : Int) < 2 ^ t.width := hnumber ▸ Int.emod_lt_of_pos _ (by positivity)
  exact Int.emod_eq_of_lt (by omega) (by omega)

/-- The procedures of the README compute what it promises. With local parameters of
an unsigned type, a run of procedure 0 returns 0 and leaves the Fibonacci number of
`n` in `rx0`, modulo 2 to the width of the type, and there is never more than one
frame, however large `n` is in comparison with the limit. -/
theorem fibonacci_run {P F T : Type} {h : RuntimeHost P F T} {f : RegisterFile Register}
    {node : UInt16} {store : Store} {params : P} {number : Nat} (hlib : h.lib.LocalMemory)
    (hunsigned : f.integer.signed = false)
    (hzero : h.lib.Parses f.type f.integer zeroText 0)
    (hone : h.lib.Parses f.type f.integer oneText 1) (hstore : StoresFibonacci store node)
    (hnode : h.Finds Register.name f node params) (hresults : h.Finds Register.name f 0 params)
    (hn : h.registers f params .n = number) (maxDepth : Nat) :
    ∃ m, runtimeThread store (store 0) h.handlers maxDepth = some m ∧
      (∃ e, Runs m.step (m.start ⟨params, []⟩) (.returned [] 0 (0, e)) ∧
        h.registers f e.params.params .rx0 = (Nat.fib number : Int) % 2 ^ f.integer.width) ∧
      ∀ k, (m.steps k (m.start ⟨params, []⟩)).control.frames.length ≤ 1 := by
  have hwrap : f.integer.wrap number = number := by
    rw [← hn]
    exact f.integer.wrap_wrap _
  have hsucceeds := fibonacci_succeeds (f := f) hlib hzero hone hstore number
    (fun i hi => IntegerType.wrap_of_le hunsigned hwrap hi) ⟨⟨params, []⟩, [], false⟩
    ⟨hnode, hresults, hn, rfl⟩
  rcases hsucceeds with ⟨hret, hregisters⟩
  rcases tailCalls_run store (store 0) hstore.closed hstore.onlyTailCalls
    (fun _ href => hstore.restricted href) h.handlers maxDepth with ⟨m, hm, hrun⟩
  rcases hrun ⟨params, []⟩ with ⟨hreturns, hframes⟩
  have hreturned := hreturns (number + 1) hregisters.notRefused
  rw [RunState.returned, hret] at hreturned
  refine ⟨m, hm, ⟨_, hreturned, ?_⟩, hframes⟩
  rw [← f.integer.wrap_unsigned hunsigned]
  exact hregisters.values

/-! ## A node with the parameters -/

/-- Bytes with the names of the example. -/
def byteRegisters : RegisterFile Register where
  param r := numberParam r.name .uint8
  type := .uint8
  integer := ⟨false, 1⟩
  integer_eq := rfl
  type_eq _ := rfl
  writable _ := rfl
  nonempty _ := Nat.one_pos
  injective := by
    intro r r' h
    have hname : r.name = r'.name := congrArg Param.name h
    revert hname
    cases r <;> cases r' <;> decide

/-- `n` is 14, and what the others hold does not matter. -/
def byteState : List Param × (Param → Nat → UInt64) :=
  ([.n, .zero, .rx0, .rx1, .rx2].map byteRegisters.param,
    fun param _ => if param = byteRegisters.param .n then 14 else 77)

def fibonacciStore : Store := fun s =>
  if s = 0 then fibonacciInit 0 else if s = 1 then fibonacciStep 0 else Proc.empty

/-- The 14th number is 377, which is 121 in a byte. The loop calls itself 13 times,
where no call may be nested. -/
theorem fibonacci_run_bytes :
    ∃ m, runtimeThread fibonacciStore (fibonacciStore 0) hostElements.handlers 0 = some m ∧
      (∃ e, Runs m.step (m.start ⟨byteState, []⟩) (.returned [] 0 (0, e)) ∧
        hostElements.registers byteRegisters e.params.params .rx0 = 121) ∧
      ∀ k, (m.steps k (m.start ⟨byteState, []⟩)).control.frames.length ≤ 1 := by
  have hfinds : hostElements.Finds Register.name byteRegisters 0 byteState := by
    intro r
    cases r with
    | n | zero | rx0 | rx1 | rx2 => decide
  have hn : hostElements.registers byteRegisters byteState .n = (14 : Nat) := by decide
  have hfib : (Nat.fib 14 : Int) % 2 ^ byteRegisters.integer.width = 121 := by decide
  rw [← hfib]
  exact fibonacci_run Libparam.elements_localMemory rfl ⟨_, rfl, by decide, by decide⟩
    ⟨_, rfl, by decide, by decide⟩ ⟨rfl, rfl⟩ hfinds hfinds hn 0

end CspProc
