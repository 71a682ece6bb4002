import CspProc.Conditions
import CspProc.StraightLine
import Mathlib.Logic.Function.Basic

/-! # Registers

Local parameters of one integer type, to which a procedure refers by names without
an index, are its registers (`RegisterFile`): an instruction assigns to one of them
and leaves the others alone, a condition compares two of them as integers.

The rules at the end are those of a Hoare logic. The assertion
`RuntimeHost.Registers` speaks of the values of the registers only, and each
instruction has its rule (`set_rule`, `unop_rule`, `binop_rule`, `ifelse_rule`).
-/

namespace CspProc

open Traced

/-! ## Register files -/

/-- Different parameters of one integer type, with elements that can be written. -/
structure RegisterFile (R : Type) where
  param : R → Param
  type : ParamType
  integer : IntegerType
  integer_eq : type.integer = some integer
  type_eq : ∀ r, (param r).type = type
  writable : ∀ r, (param r).readonly = false
  nonempty : ∀ r, 0 < (param r).arraySize
  injective : Function.Injective param

namespace RegisterFile

variable {R : Type} (f : RegisterFile R)

/-- A register without an index. -/
def place (r : R) : Place := ⟨f.param r, -1⟩

/-- The values of the registers among those of all elements. -/
def of (v : Values) : R → Int := fun r => v (f.param r) 0

theorem inRange (r : R) : (f.place r).InRange := by
  constructor
  · exact f.nonempty r
  · show (-1 : Int) < (f.param r).arraySize
    omega

theorem integer_param (r : R) : (f.place r).param.type.integer = some f.integer := by
  show (f.param r).type.integer = some f.integer
  rw [f.type_eq, f.integer_eq]

theorem place_ok (r : R) : (f.place r).param.type = f.type ∧ (f.place r).InRange :=
  ⟨f.type_eq r, f.inRange r⟩

theorem read_place (r : R) (v : Values) : (f.place r).read v = f.of v r := rfl

/-- An assignment to a register leaves the others alone. -/
theorem of_assign [DecidableEq R] (r : R) (x : Int) (v : Values) :
    f.of ((f.place r).assign x v) = Function.update (f.of v) r x := by
  funext r'
  unfold of Place.assign
  by_cases hr : r' = r
  · have hcovers : (f.place r).Covers (f.param r') 0 := by
      rw [hr]
      exact ⟨rfl, .inl (show (-1 : Int) < 0 by decide)⟩
    rw [if_pos hcovers, hr, Function.update_self]
  · have hcovers : ¬ (f.place r).Covers (f.param r') 0 := by
      intro hc
      exact hr (f.injective hc.1)
    rw [if_neg hcovers, Function.update_of_ne hr]

end RegisterFile

/-- libparam reads a text as a value, in at least as many bytes as its type has. -/
def Libparam.Parses {P : Type} (lib : Libparam P) (type : ParamType) (t : IntegerType)
    (text : CStr) (x : Int) : Prop :=
  ∃ bytes, lib.paramStrToValue type text = some bytes ∧ t.size ≤ bytes.length ∧
    t.ofBytes bytes = x

/-- What a text is read as is a value of the type. -/
theorem Libparam.Parses.wrap_eq {P : Type} {lib : Libparam P} {type : ParamType} {t : IntegerType}
    {text : CStr} {x : Int} (h : lib.Parses type t text x) : t.wrap x = x := by
  rcases h with ⟨bytes, -, -, rfl⟩
  exact t.wrap_wrap _

/-- What follows the value in its buffer is not read. -/
theorem IntegerType.ofBytes_append {t : IntegerType} {bytes : List UInt8}
    (h : t.size ≤ bytes.length) (padding : List UInt8) :
    t.ofBytes (bytes ++ padding) = t.ofBytes bytes := by
  unfold ofBytes
  rw [List.take_append_of_le_length h]

/-! ## The handlers -/

namespace Host

variable {P F : Type} (h : Host P F) {R : Type} (name : R → CStr) (f : RegisterFile R)

/-- On a node the names stand for the registers. -/
def Finds (node : UInt16) (s : P) : Prop := ∀ r, h.place s (name r) node = some (f.place r)

/-- The values of the registers. -/
def registers (s : P) : R → Int := f.of (h.valuesOf f.integer s)

/-- `x` has been assigned to a register, and nothing else has changed. -/
structure Assigned [DecidableEq R] (r : R) (x : Int) (s s' : P) : Prop where
  list : h.lib.params s' = h.lib.params s
  values : h.registers f s' = Function.update (h.registers f s) r x

variable {h name f} {s s' : P} {node : UInt16}

theorem holds_valuesOf (t : IntegerType) (s : P) :
    h.Holds (h.lib.params s) t (h.valuesOf t s) s := ⟨rfl, fun _ _ _ _ => rfl⟩

/-- Names that are found keep their parameters. -/
theorem Finds.congr (hs : h.lib.params s' = h.lib.params s) (hfinds : h.Finds name f node s) :
    h.Finds name f node s' := by
  intro r
  rw [place_congr hs]
  exact hfinds r

theorem Finds.mem (hfinds : h.Finds name f node s) (r : R) : f.param r ∈ h.lib.params s :=
  (place_param (hfinds r)).1

/-- The values of the registers, where those of all elements are known. -/
theorem Holds.registers (hfinds : h.Finds name f node s) {v : Values}
    (hv : h.Holds (h.lib.params s) f.integer v s') : h.registers f s' = f.of v := by
  funext r
  exact hv.values (f.param r) (hfinds.mem r) 0 (f.nonempty r)

section Assignments

variable [DecidableEq R] (hlib : h.lib.LocalMemory) (hfinds : h.Finds name f node s)

include hlib hfinds in
/-- `set` assigns the value that its text stands for. -/
theorem set_assigns {text : CStr} {x : Int} (hparse : h.lib.Parses f.type f.integer text x)
    (r : R) :
    ∃ s', (h.procRuntimeSet ⟨node, .set (name r) text⟩).Returns s 0 s' ∧
      h.Assigned f r x s s' := by
  rcases hparse with ⟨bytes, hbytes, hsize, rfl⟩
  have hplace := hfinds r
  have hvalue : h.valueBytes (f.param r) none (some text) s = some bytes := by
    show h.lib.paramStrToValue (f.param r).type text = some bytes
    rw [f.type_eq, hbytes]
  rcases store_place hlib hplace (f.inRange r) (holds_valuesOf f.integer s) (f.integer_param r)
      (w := ⟨f.param r, h.scanOffset (name r),
        bytes ++ List.replicate (valuebufSize - bytes.length) 0, node⟩) rfl
      (place_eq_some hplace).2.2.symm (by rw [List.length_append]; omega)
    with ⟨s', hstore, hv, -⟩
  refine ⟨s', ?_, hv.list, ?_⟩
  · show (h.procSetParam (name r) none (some text) node).Returns s 0 s'
    unfold procSetParam
    rw [if_neg (by simp)]
    refine .bind (procFetchParam_place hplace) ?_
    dsimp only
    rw [if_neg (by simp [RegisterFile.place, f.writable r])]
    refine .bind (returns_look _ s) ?_
    rw [show h.valueBytes (f.place r).param none (some text) s = some bytes from hvalue]
    exact .bind (returns_report _ _ s) hstore
  · rw [Holds.registers hfinds hv, f.of_assign, IntegerType.ofBytes_append hsize]
    rfl

include hlib hfinds in
/-- `unop` and `binop` assign the exact result, converted to the type. -/
theorem arithmetic_assigns {ins : ProcInstruction} {a : Assignment} {r : R}
    (ha : h.assignment s ins = some a) (hresult : a.result = f.place r)
    (hover : a.OverType f.type) (hallowed : a.Allowed f.integer)
    (hzero : ¬ a.DividesByZero (h.valuesOf f.integer s)) :
    ∃ s', (h.procRuntimeArithmetic ins).Returns s 0 s' ∧
      h.Assigned f r (f.integer.wrap (a.exact (h.valuesOf f.integer s))) s s' := by
  rcases arithmetic_run hlib ha (holds_valuesOf f.integer s) f.integer_eq hover hallowed
    with ⟨s', hrun, hv, -⟩
  have hwritable : ¬ a.result.param.readonly = true := by
    rw [hresult]
    simp [RegisterFile.place, f.writable r]
  have hexec : a.exec f.integer (h.valuesOf f.integer s) =
      (0, (f.place r).assign (f.integer.wrap (a.exact (h.valuesOf f.integer s)))
        (h.valuesOf f.integer s)) := by
    unfold Assignment.exec
    rw [if_neg (not_or.mpr ⟨hzero, hwritable⟩), hresult]
  rw [hexec] at hrun hv
  refine ⟨s', hrun, hv.list, ?_⟩
  rw [Holds.registers hfinds hv, f.of_assign]
  rfl

end Assignments

/-- Numbers are compared without an access. -/
theorem compareFetched_state {c : Compared F} (ha : c.a.type = .uint ∨ c.a.type = .int)
    (op : ComparisonOp) (s : P) : ((h.compareFetched op c).run s).state = s := by
  unfold compareFetched compareOperands
  dsimp only
  rcases ha with ha | ha
  · rw [ha]
    dsimp only
    split
    · rfl
    · rfl
  · rw [ha]
    dsimp only
    split
    · rfl
    · rfl

/-- A condition on two registers compares their values, and changes nothing. -/
theorem ifelse_compares (hfinds : h.Finds name f node s) (op : ComparisonOp) (x y : R) :
    (h.procRuntimeIfelse ⟨node, .ifelse (name x) op.code (name y)⟩).Returns s
      (conditionOf (some (op.holds (compare (h.registers f s x) (h.registers f s y))))) s := by
  rcases fetchOperandParamPair_place (hfinds x) (holds_valuesOf f.integer s) (f.integer_param x)
    (f.inRange x) with ⟨a, ha, haof, havalue⟩
  rcases fetchOperandParamPair_place (hfinds y) (holds_valuesOf f.integer s) (f.integer_param y)
    (f.inRange y) with ⟨b, hb, hbof, hbvalue⟩
  have hsupported : ¬ ((f.place x).param.type = .invalid ∨ (f.place y).param.type = .data) := by
    have hx := f.integer_param x
    have hy := f.integer_param y
    rintro (hinvalid | hdata)
    · simp [hinvalid, ParamType.integer] at hx
    · simp [hdata, ParamType.integer] at hy
  have hfetch : (h.fetchCompared (name x) (name y) node).Returns s
      (some ⟨f.param x, f.param y, a, b, f.param x, f.param y⟩) s := by
    refine .bind (procFetchParam_place (hfinds x)) (.bind (procFetchParam_place (hfinds y)) ?_)
    dsimp only
    rw [if_neg hsupported]
    exact .bind ha (.bind hb (returns_pure _ s))
  have hnumber : a.type = .uint ∨ a.type = .int := haof.isInteger.symm
  have hcompare : ((h.compareFetched op
      ⟨f.param x, f.param y, a, b, f.param x, f.param y⟩).run s).value =
      conditionOf (some (op.holds (compare (h.registers f s x) (h.registers f s y)))) := by
    rw [compareFetched_number op s hnumber, if_pos (hbof.type.trans haof.type.symm), havalue,
      hbvalue, f.read_place, f.read_place]
    rfl
  rw [ifelse_eq]
  exact .bind hfetch ⟨hcompare, compareFetched_state hnumber op s⟩

end Host

theorem ComparisonOp.holds_eq_iff {x y : Int} : eq.holds (compare x y) = true ↔ x = y := by
  unfold holds
  rw [decide_eq_true_iff, compare_eq_iff_eq]

theorem ComparisonOp.holds_gt_iff {x y : Int} : gt.holds (compare x y) = true ↔ y < x := by
  unfold holds
  rw [decide_eq_true_iff, compare_gt_iff_gt]

/-! ## The rules -/

namespace RuntimeHost

variable {P F T : Type} (h : RuntimeHost P F T) {R : Type} (name : R → CStr) (f : RegisterFile R)
variable (node : UInt16)

/-- The registers are found where the instructions are and where `unop` puts its
results, their values satisfy `Q`, and no call has been refused. -/
structure Registers (Q : (R → Int) → Prop) (e : Effects (Session P)) : Prop where
  found : h.Finds name f node e.params.params
  foundResults : h.Finds name f 0 e.params.params
  values : Q (h.registers f e.params.params)
  notRefused : e.limitReached = false

variable {h name f node} {Q Q' : (R → Int) → Prop} {e : Effects (Session P)}
variable {call : UInt8 → Cmd (Effects (Session P))}

theorem Registers.mono (he : h.Registers name f node Q e) (hQ : ∀ v, Q v → Q' v) :
    h.Registers name f node Q' e := ⟨he.found, he.foundResults, hQ _ he.values, he.notRefused⟩

theorem Registers.and (he : h.Registers name f node Q e) (hQ : Q' (h.registers f e.params.params)) :
    h.Registers name f node (fun v => Q v ∧ Q' v) e :=
  ⟨he.found, he.foundResults, ⟨he.values, hQ⟩, he.notRefused⟩

/-- An instruction without effect on libparam. -/
theorem Registers.log (he : h.Registers name f node Q e) (ins : ProcInstruction)
    {session : Session P} (hsession : session.params = e.params.params) :
    h.Registers name f node Q (e.log ins session) := by
  rcases he with ⟨hfound, hresults, hvalues, hnot⟩
  rw [← hsession] at hfound hresults hvalues
  exact ⟨hfound, hresults, hvalues, hnot⟩

/-- An instruction that assigns to a register. -/
theorem Registers.assigned [DecidableEq R] {r : R} {x : Int} (he : h.Registers name f node Q' e)
    (hQ : Q (Function.update (h.registers f e.params.params) r x)) (ins : ProcInstruction)
    {session : Session P} (ha : h.Assigned f r x e.params.params session.params) :
    h.Registers name f node Q (e.log ins session) := by
  refine ⟨he.found.congr ha.list, he.foundResults.congr ha.list, ?_, he.notRefused⟩
  rw [← ha.values] at hQ
  exact hQ

section Assignments

variable [DecidableEq R] (hlib : h.lib.LocalMemory)

include hlib in
theorem set_rule {text : CStr} {x : Int} (hparse : h.lib.Parses f.type f.integer text x) (r : R)
    (Q : (R → Int) → Prop) :
    Cmd.Succeeds (h.Registers name f node fun v => Q (Function.update v r x))
      (h.Registers name f node Q)
      (Structured.execPlain h.handlers call ⟨node, .set (name r) text⟩) := by
  intro e he
  rcases Host.set_assigns hlib he.found hparse r with ⟨s', ⟨hret, hstate⟩, ha⟩
  rw [← hstate] at ha
  exact ⟨hret, he.assigned he.values _ ha⟩

include hlib in
theorem unop_rule {op : UnaryOp} (hop : op ∈ [.inc, .dec, .idt] ∨ op = .neg ∧ f.integer.signed)
    (x r : R) (Q : (R → Int) → Prop) :
    Cmd.Succeeds
      (h.Registers name f node
        fun v => Q (Function.update v r (f.integer.wrap (op.exact (v x)))))
      (h.Registers name f node Q)
      (Structured.execPlain h.handlers call ⟨node, .unop (name x) op.code (name r)⟩) := by
  intro e he
  have hrmt : ¬ UnaryOp.ofCode op.code = some .rmt := by
    rw [UnaryOp.ofCode_code]
    rintro ⟨rfl⟩
    simp at hop
  have hassignment : h.assignment e.params.params ⟨node, .unop (name x) op.code (name r)⟩ =
      some (.unary op (f.place x) (f.place r)) := by
    unfold Host.assignment Host.fetchNode Host.resultNode
    dsimp only
    rw [if_neg hrmt, if_neg hrmt, UnaryOp.ofCode_code, he.found x, he.foundResults r]
    rfl
  have hover : (Assignment.unary op (f.place x) (f.place r)).OverType f.type := by
    simp [Assignment.OverType, Assignment.places, f.place_ok]
  rcases Host.arithmetic_assigns hlib he.found hassignment rfl hover hop id
    with ⟨s', ⟨hret, hstate⟩, ha⟩
  rw [← hstate] at ha
  exact ⟨hret, he.assigned he.values _ ha⟩

include hlib in
/-- There has to be a quotient. -/
theorem binop_rule {op : BinaryOp} (hop : op ∈ [.add, .sub, .mul, .div, .mod, .and, .or, .xor])
    (x y r : R) (Q : (R → Int) → Prop) :
    Cmd.Succeeds
      (h.Registers name f node fun v => ¬ ((op = .div ∨ op = .mod) ∧ v y = 0) ∧
        Q (Function.update v r (f.integer.wrap (op.exact (v x) (v y)))))
      (h.Registers name f node Q)
      (Structured.execPlain h.handlers call
        ⟨node, .binop (name x) op.code (name y) (name r)⟩) := by
  intro e he
  have hassignment :
      h.assignment e.params.params ⟨node, .binop (name x) op.code (name y) (name r)⟩ =
        some (.binary op (f.place x) (f.place y) (f.place r)) := by
    unfold Host.assignment
    dsimp only
    rw [BinaryOp.ofCode_code, he.found x, he.found y, he.found r]
    rfl
  have hover : (Assignment.binary op (f.place x) (f.place y) (f.place r)).OverType f.type := by
    simp [Assignment.OverType, Assignment.places, f.place_ok]
  rcases Host.arithmetic_assigns hlib he.found hassignment rfl hover hop he.values.1
    with ⟨s', ⟨hret, hstate⟩, ha⟩
  rw [← hstate] at ha
  exact ⟨hret, he.assigned he.values.2 _ ha⟩

end Assignments

/-- A condition is followed by the clause that it says. -/
theorem ifelse_rule (op : ComparisonOp) (x y : R) {ifClause elseClause : Option ProcInstruction}
    (hif : Cmd.Succeeds
      (h.Registers name f node fun v => Q v ∧ op.holds (compare (v x) (v y)) = true)
      (h.Registers name f node Q') (Structured.execClause h.handlers call ifClause))
    (helse : Cmd.Succeeds
      (h.Registers name f node fun v => Q v ∧ op.holds (compare (v x) (v y)) = false)
      (h.Registers name f node Q') (Structured.execClause h.handlers call elseClause)) :
    Cmd.Succeeds (h.Registers name f node Q) (h.Registers name f node Q')
      (Structured.execStmt h.handlers call
        (.ifelse ⟨node, .ifelse (name x) op.code (name y)⟩ ifClause elseClause)) := by
  intro e he
  rcases Host.ifelse_compares he.found op x y with ⟨hvalue, hstate⟩
  have hcondition : (h.handlers.ifelse ⟨node, .ifelse (name x) op.code (name y)⟩ e.params).1 =
      conditionOf (some (op.holds (compare (h.registers f e.params.params x)
        (h.registers f e.params.params y)))) := hvalue
  rw [Structured.execStmt_clause, hcondition]
  cases hholds : op.holds (compare (h.registers f e.params.params x)
      (h.registers f e.params.params y)) with
  | true => exact hif _ ((he.and hholds).log _ hstate)
  | false => exact helse _ ((he.and hholds).log _ hstate)

/-- A call does what the procedure in its slot does. -/
theorem call_rule {slot : UInt8}
    (hcall : Cmd.Succeeds (h.Registers name f node Q) (h.Registers name f node Q') (call slot)) :
    Cmd.Succeeds (h.Registers name f node Q) (h.Registers name f node Q')
      (Structured.execPlain h.handlers call ⟨node, .call slot⟩) := by
  intro e he
  exact hcall _ (he.log _ rfl)

end RuntimeHost

end CspProc
