import CspProc.Arithmetic
import CspProc.Nested

/-! # Straight-line programs over one type

A procedure that is made of `unop` and `binop` on local parameters of one integer
type computes in that type: every instruction assigns the exact result, converted
to the type (`Assignment.exec`), although the interpreter computes in 64 bits.

* `Host.assignment` — an instruction with its references resolved;
* `Libparam.LocalMemory` — what libparam is relied on for;
* `arithmetic_run` — one handler;
* `one_type_run` — a whole run.
-/

namespace CspProc

open TwosComplement

/-! ## Assignments -/

/-- A parameter and an index, which is negative without one. -/
structure Place where
  param : Param
  offset : Int
deriving DecidableEq, Repr

/-- The values of the elements of parameters. -/
abbrev Values : Type := Param → Nat → Int

namespace Place

variable (p : Place)

/-- The element that is read; without an index it is the first one. -/
def index : Nat := p.offset.toNat

def read (v : Values) : Int := v p.param p.index

/-- The elements that are assigned to; without an index all are. -/
def Covers (param : Param) (i : Nat) : Prop := param = p.param ∧ (p.offset < 0 ∨ p.offset = i)

instance (param : Param) (i : Nat) : Decidable (p.Covers param i) :=
  inferInstanceAs (Decidable (_ ∧ _))

def assign (x : Int) (v : Values) : Values := fun param i =>
  if p.Covers param i then x else v param i

/-- The index is one of the parameter, which has a first element. -/
def InRange : Prop := 0 < p.param.arraySize ∧ p.offset < p.param.arraySize

instance : Decidable p.InRange := inferInstanceAs (Decidable (_ ∧ _))

variable {p}

theorem InRange.index_lt (hp : p.InRange) : p.index < p.param.arraySize := by
  rcases hp with ⟨hpos, hlt⟩
  unfold index
  omega

end Place

/-- An operator with the places of its operands and of its result. -/
inductive Assignment where
  | unary (op : UnaryOp) (x result : Place)
  | binary (op : BinaryOp) (x y result : Place)
deriving DecidableEq, Repr

namespace Assignment

def result : Assignment → Place
  | unary _ _ result | binary _ _ _ result => result

def places : Assignment → List Place
  | unary _ x result => [x, result]
  | binary _ x y result => [x, y, result]

/-- The exact result. -/
def exact : Assignment → Values → Int
  | unary op x _, v => op.exact (x.read v)
  | binary op x y _, v => op.exact (x.read v) (y.read v)

/-- A quotient or a remainder that there is not. -/
def DividesByZero : Assignment → Values → Prop
  | unary .., _ => False
  | binary op _ y _, v => (op = .div ∨ op = .mod) ∧ y.read v = 0

instance (a : Assignment) (v : Values) : Decidable (a.DividesByZero v) :=
  match a with
  | unary .. => inferInstanceAs (Decidable False)
  | binary .. => inferInstanceAs (Decidable (_ ∧ _))

/-- The exact result is converted to the type when it is assigned. Without a
result, and where the result cannot be written, nothing is assigned. -/
def exec (t : IntegerType) (a : Assignment) : Cmd Values := fun v =>
  if a.DividesByZero v ∨ a.result.param.readonly = true then (-1, v)
  else (0, a.result.assign (t.wrap (a.exact v)) v)

/-- One of `++`, `--`, `idt`, `-` of a signed type, `+`, `-`, `*`, `/`, `%`, `&`,
`|` and `^`. -/
def Allowed (t : IntegerType) : Assignment → Prop
  | unary op .. => op ∈ [.inc, .dec, .idt] ∨ op = .neg ∧ t.signed = true
  | binary op .. => op ∈ [.add, .sub, .mul, .div, .mod, .and, .or, .xor]

instance (t : IntegerType) (a : Assignment) : Decidable (a.Allowed t) :=
  match a with
  | unary .. => inferInstanceAs (Decidable (_ ∨ _))
  | binary .. => inferInstanceAs (Decidable (_ ∈ _))

/-- All places are elements of parameters of a type. -/
def OverType (type : ParamType) (a : Assignment) : Prop :=
  ∀ p ∈ a.places, p.param.type = type ∧ p.InRange

instance (type : ParamType) (a : Assignment) : Decidable (a.OverType type) :=
  inferInstanceAs (Decidable (∀ p ∈ a.places, _))

end Assignment

/-! ## References -/

/-- A search ends at a parameter of the list. -/
theorem mem_of_lookup {strmatch : Param → Bool} {node : UInt16} {addrs : List Int} {g : Nat}
    {params : List Param} {param : Param}
    (hl : lookup strmatch node addrs g params = .found param) : param ∈ params := by
  induction params generalizing g with
  | nil => cases hl
  | cons q params ih =>
      unfold lookup at hl
      split at hl
      · split at hl
        · split at hl
          · split at hl
            · cases hl
              exact List.mem_cons_self
            · exact List.mem_cons_of_mem _ (ih hl)
          · split at hl
            · cases hl
              exact List.mem_cons_self
            · cases hl
        · exact List.mem_cons_of_mem _ (ih hl)
      · cases hl

/-- An operation of an assignment's operator, whose operands have the type and the
values of its places. -/
inductive Operation.Matches {F : Type} (fl : FloatOps F) (type : ParamType) (t : IntegerType)
    (v : Values) : Operation F → Assignment → Prop where
  | unary {op : UnaryOp} {x : Operand F} {p result : Place} (hx : x.Of type t)
      (hvalue : x.toInt fl = p.read v) : Matches fl type t v (.unary op x) (.unary op p result)
  | binary {op : BinaryOp} {x y : Operand F} {p q result : Place} (hx : x.Of type t)
      (hxvalue : x.toInt fl = p.read v) (hy : y.Of type t) (hyvalue : y.toInt fl = q.read v) :
      Matches fl type t v (.binary op x y) (.binary op p q result)

namespace Operation.Matches

variable {F : Type} {fl : FloatOps F} {type : ParamType} {t : IntegerType} {v : Values}
variable {o : Operation F} {a : Assignment}

theorem exact_eq (h : o.Matches fl type t v a) : o.exact fl = a.exact v := by
  cases h with
  | unary hx hvalue => rw [exact, hvalue]; rfl
  | binary hx hxvalue hy hyvalue => rw [exact, hxvalue, hyvalue]; rfl

theorem source (h : o.Matches fl type t v a) : o.first.sourceType = type := by
  cases h with
  | unary hx => exact hx.sourceType
  | binary hx => exact hx.sourceType

theorem isInteger (h : o.Matches fl type t v a) : o.first.IsInteger := by
  cases h with
  | unary hx => exact hx.isInteger
  | binary hx => exact hx.isInteger

theorem shiftDefined (h : o.Matches fl type t v a) (ha : a.Allowed t) : o.ShiftDefined fl := by
  cases h with
  | unary => trivial
  | @binary op =>
      intro hshift
      cases op <;> simp_all [Assignment.Allowed, BinaryOp.isShift]

/-- Nothing but a zero divisor is refused. -/
theorem refused_iff (typeCode : ParamType → Nat) (h : o.Matches fl type t v a)
    (ha : a.Allowed t) :
    o.perform fl typeCode = none ↔ a.DividesByZero v := by
  cases h with
  | @unary op x p result hx hvalue =>
      -- the operators that are allowed accept the class of the operand
      have hsome : ((Operation.unary op x).perform fl typeCode).isSome = true := by
        apply (Host.unopOperand_isSome fl typeCode op hx).mpr
        rcases ha with hop | ⟨rfl, hsigned⟩
        · constructor
          · rintro ⟨rfl, -⟩
            simp at hop
          · rintro rfl
            simp at hop
        · simp [hsigned]
      rw [Option.isSome_iff_ne_none] at hsome
      constructor
      · intro hnone
        exact hsome hnone
      · intro hzero
        exact hzero.elim
  | @binary op x y p q result hx hxvalue hy hyvalue =>
      have hxclass : x.type = if t.signed then .int else .uint := hx.type
      have hyclass : y.type = if t.signed then .int else .uint := hy.type
      show _ ↔ (op = .div ∨ op = .mod) ∧ q.read v = 0
      rw [← hyvalue]
      -- both operands are of one class, each of which has its own `switch`
      cases hsigned : t.signed with
      | true =>
          simp only [hsigned, if_true] at hxclass hyclass
          rw [Operation.perform_int hxclass hyclass, Option.map_eq_none_iff,
            Operation.onInt_eq_none, Operand.toInt_int hyclass]
      | false =>
          simp only [hsigned, Bool.false_eq_true, if_false] at hxclass hyclass
          rw [Operation.perform_uint hxclass hyclass, Option.map_eq_none_iff,
            Operation.onUint_eq_none, Operand.toInt_uint hyclass, Int.natCast_eq_zero]

/-- 64 bits have room for the product of integers of 32 bits. -/
theorem inInt64_mul {x y : Int} (hx : -2 ^ 31 ≤ x ∧ x < 2 ^ 31) (hy : -2 ^ 31 ≤ y ∧ y < 2 ^ 31) :
    InInt64 (x * y) := by
  have habs : |x * y| ≤ 2 ^ 31 * 2 ^ 31 := by
    rw [abs_mul]
    exact mul_le_mul (abs_le.mpr ⟨hx.1, hx.2.le⟩) (abs_le.mpr ⟨hy.1, hy.2.le⟩) (abs_nonneg y)
      (by decide)
  rcases abs_le.mp habs with ⟨hlow, hhigh⟩
  constructor
  · omega
  · omega

/-- Operations on values of a type of up to 32 bits cannot go wrong in 64 bits. -/
theorem not_hazard (h : o.Matches fl type t v a) (ha : a.Allowed t)
    (hv : ∀ param i, t.wrap (v param i) = v param i) (hwidth : t.width ≤ 32) :
    ¬ o.Hazard fl := by
  have hbounds : ∀ {x : Operand F} {p : Place}, x.Of type t → x.type = .int →
      -2 ^ 31 ≤ p.read v ∧ p.read v < 2 ^ 31 := by
    intro x p hx hint
    -- values of unsigned types meet no hazard, so those of signed ones are left
    have hsigned : t.signed = true := by
      have hclass : x.type = if t.signed then .int else .uint := hx.type
      by_contra hunsigned
      simp [hclass, hunsigned] at hint
    have hwrap : reduce true t.width (p.read v) = p.read v := hsigned ▸ hv p.param p.index
    exact hwrap ▸ reduce_signed_bounds (n := 31) hwidth _
  cases h with
  | @unary op x p result hx hvalue =>
      rintro ⟨hint, hcases⟩
      have hx := hbounds (p := p) hx hint
      rw [hvalue] at hcases
      omega
  | @binary op x y p q result hx hxvalue hy hyvalue =>
      rintro ⟨hxy, ⟨hint, hop, hrange⟩ | ⟨hint, -, hmin, -⟩ | ⟨hop, -⟩⟩
      · have hx := hbounds (p := p) hx hint
        have hy := hbounds (p := q) hy (hxy ▸ hint)
        rw [hxvalue, hyvalue] at hrange
        apply hrange
        rcases hop with rfl | rfl | rfl
        · exact ⟨by simp only [BinaryOp.exact]; omega, by simp only [BinaryOp.exact]; omega⟩
        · exact ⟨by simp only [BinaryOp.exact]; omega, by simp only [BinaryOp.exact]; omega⟩
        · exact inInt64_mul hx hy
      · have hx := hbounds (p := p) hx hint
        omega
      · rcases hop with rfl | rfl
        all_goals simp [Assignment.Allowed] at ha

end Operation.Matches

/-- What libparam is relied on for: `param_set` stores the leading bytes of a
buffer in one element of a parameter, where `param_get` finds them, and touches
neither the list of parameters nor any other element. -/
structure Libparam.LocalMemory {P : Type} (lib : Libparam P) : Prop where
  params_set : ∀ param i bytes s, lib.params (lib.paramSet param i bytes s) = lib.params s
  get_set : ∀ param i bytes s t, param ∈ lib.params s → i < param.arraySize →
    param.type.integer = some t → t.size ≤ bytes.length →
    t.ofRaw (lib.paramGet param i (lib.paramSet param i bytes s)) = t.ofBytes bytes
  get_set_other : ∀ param i bytes s param' j, param ∈ lib.params s → i < param.arraySize →
    param' ∈ lib.params s → j < param'.arraySize → ¬ (param' = param ∧ j = i) →
    lib.paramGet param' j (lib.paramSet param i bytes s) = lib.paramGet param' j s

namespace Host

open Traced

variable {P F : Type} (h : Host P F)

/-- The local parameter and the index that a reference stands for. -/
def place (s : P) (name : CStr) (node : UInt16) : Option Place :=
  match h.search name node s with
  | .found param =>
      if (localAddrs node h.ifaces).isRemoteParam then none else some ⟨param, h.scanOffset name⟩
  | .absent | .remote _ | .exhausted _ => none

/-- An instruction with its references resolved. -/
def assignment (s : P) (ins : ProcInstruction) : Option Assignment :=
  match ins.instruction with
  | .unop param op result => do
      return .unary (← UnaryOp.ofCode op) (← h.place s param (fetchNode op ins.node))
        (← h.place s result (resultNode op ins.node))
  | .binop a op b result => do
      return .binary (← BinaryOp.ofCode op) (← h.place s a ins.node) (← h.place s b ins.node)
        (← h.place s result ins.node)
  | _ => none

/-- The elements of the parameters in a list have these values. -/
structure Holds (params : List Param) (t : IntegerType) (v : Values) (s : P) : Prop where
  list : h.lib.params s = params
  values : ∀ param ∈ params, ∀ i < param.arraySize, t.ofRaw (h.lib.paramGet param i s) = v param i

variable {h} {s : P} {name : CStr} {node : UInt16} {p : Place} {params : List Param}
variable {t : IntegerType} {v : Values}

/-- What a reference stands for depends on the list of parameters only. -/
theorem place_congr {s' : P} (hs : h.lib.params s' = h.lib.params s) (name : CStr)
    (node : UInt16) : h.place s' name node = h.place s name node := by
  unfold place search
  rw [hs]

theorem assignment_congr {s' : P} (hs : h.lib.params s' = h.lib.params s)
    (ins : ProcInstruction) : h.assignment s' ins = h.assignment s ins := by
  unfold assignment
  simp only [place_congr hs]

theorem place_eq_some (hp : h.place s name node = some p) :
    h.search name node s = .found p.param ∧ (localAddrs node h.ifaces).isRemoteParam = false ∧
      p.offset = h.scanOffset name := by
  unfold place at hp
  cases hsearch : h.search name node s with
  | found param =>
      simp only [hsearch] at hp
      split at hp
      · cases hp
      · rename_i hlocal
        cases hp
        exact ⟨rfl, Bool.not_eq_true _ ▸ hlocal, rfl⟩
  | absent | remote | exhausted => simp [hsearch] at hp

/-- A parameter that is found without its node is in the list, and local. -/
theorem place_param (hp : h.place s name node = some p) :
    p.param ∈ h.lib.params s ∧ p.param.node = 0 := by
  have hfound := (place_eq_some hp).1
  have hsound := lookup_sound (fun param => h.lib.strmatch param.name.bytes
    ((cutIndex (h.scanOffset name) name.bytes).getD name.bytes)) node
    (localAddrs node h.ifaces).addrs 0 (h.lib.params s)
  unfold search at hfound
  rw [hfound] at hsound
  exact ⟨mem_of_lookup hfound, hsound.1⟩

/-! ## Fetching -/

theorem procFetchParam_place (hp : h.place s name node = some p) :
    (h.procFetchParam name node).Returns s (some p.param) s := by
  rcases place_eq_some hp with ⟨hfound, hlocal, -⟩
  have hdownload :
      (h.downloadList (localAddrs node h.ifaces).isRemoteParam node).Returns s 0 s := by
    rw [hlocal]
    exact returns_pure 0 s
  refine .bind (returns_report _ _ s) (.bind (returns_report _ _ s) (.bind hdownload ?_))
  rw [if_neg (lt_irrefl 0)]
  refine .bind (returns_look _ s) ?_
  rw [hfound]
  exact returns_pure (some p.param) s

theorem parseParamToOperand_place (ht : p.param.type.integer = some t)
    (hoffset : p.offset = h.scanOffset name) :
    ∃ x, (h.parseParamToOperand p.param (h.scanOffset name)).Returns s (some x) s ∧
      x.Of p.param.type t ∧ x.toInt h.fl = t.ofRaw (h.lib.paramGet p.param p.index s) := by
  rcases parseValue_integer h.fl ht (h.lib.paramGet p.param p.index s) with ⟨x, hx, hof, hint⟩
  have hsupported : ¬ (p.param.type = .data ∨ p.param.type = .invalid) := by
    rintro (hdata | hinvalid)
    · simp [hdata, ParamType.integer] at ht
    · simp [hinvalid, ParamType.integer] at ht
  refine ⟨x, ?_, hof, hint⟩
  unfold parseParamToOperand
  rw [if_neg hsupported, ← hoffset]
  refine .bind (returns_act _ _ s) ?_
  show (pure (parseValue h.fl p.param.type (h.lib.paramGet p.param p.index s)) :
    Traced Access P _).Returns s (some x) s
  rw [hx]
  exact returns_pure (some x) s

/-- An operand is fetched with the value of its place. -/
theorem fetchOperandParamPair_place (hp : h.place s name node = some p)
    (hv : h.Holds params t v s) (ht : p.param.type.integer = some t) (hrange : p.InRange) :
    ∃ x, (h.fetchOperandParamPair name node).Returns s (some (x, p.param)) s ∧
      x.Of p.param.type t ∧ x.toInt h.fl = p.read v := by
  rcases parseParamToOperand_place ht (place_eq_some hp).2.2 with ⟨x, hparse, hof, hint⟩
  refine ⟨x, .bind (procFetchParam_place hp) (.bind hparse (returns_pure _ s)), hof, ?_⟩
  rw [hint]
  exact hv.values p.param (hv.list ▸ (place_param hp).1) p.index hrange.index_lt

/-- The operation of an assignment is fetched, and nothing changes. -/
theorem fetchOperation_place {ins : ProcInstruction} {a : Assignment} {type : ParamType}
    (ha : h.assignment s ins = some a) (hv : h.Holds params t v s) (ht : type.integer = some t)
    (hover : a.OverType type) :
    ∃ operation, (h.fetchOperation ins).Returns s (some operation) s ∧
      operation.Matches h.fl type t v a := by
  unfold assignment at ha
  unfold fetchOperation
  cases hins : ins.instruction with
  | unop x op result =>
      simp only [hins, Option.bind_eq_bind, Option.bind_eq_some_iff] at ha
      rcases ha with ⟨unop, hop, p, hp, q, hq, ha⟩
      cases ha
      rcases hover p (by simp [Assignment.places]) with ⟨htype, hrange⟩
      rcases fetchOperandParamPair_place hp hv (htype ▸ ht) hrange with ⟨x, hx, hof, hvalue⟩
      refine ⟨.unary unop x, .bind hx ?_, .unary (htype ▸ hof) hvalue⟩
      rw [hop]
      exact returns_pure _ s
  | binop x op y result =>
      simp only [hins, Option.bind_eq_bind, Option.bind_eq_some_iff] at ha
      rcases ha with ⟨binop, hop, p, hp, q, hq, r, hr, ha⟩
      cases ha
      rcases hover p (by simp [Assignment.places]) with ⟨hptype, hprange⟩
      rcases hover q (by simp [Assignment.places]) with ⟨hqtype, hqrange⟩
      rcases fetchOperandParamPair_place hp hv (hptype ▸ ht) hprange with ⟨x, hx, hxof, hxvalue⟩
      rcases fetchOperandParamPair_place hq hv (hqtype ▸ ht) hqrange with ⟨y, hy, hyof, hyvalue⟩
      refine ⟨.binary binop x y, .bind hx (.bind hy ?_),
        .binary (hptype ▸ hxof) hxvalue (hqtype ▸ hyof) hyvalue⟩
      rw [hop]
      exact returns_pure _ s
  | _ => simp [hins] at ha

/-! ## Storing -/

variable (h) in
/-- Some elements of a parameter have been overwritten, and nothing else. -/
structure Overwrites (param : Param) (t : IntegerType) (x : Int) (covers : Nat → Prop) (s s' : P) :
    Prop where
  list : h.lib.params s' = h.lib.params s
  covered : ∀ j < param.arraySize, covers j → t.ofRaw (h.lib.paramGet param j s') = x
  other : ∀ param' ∈ h.lib.params s, ∀ j < param'.arraySize, ¬ (param' = param ∧ covers j) →
    h.lib.paramGet param' j s' = h.lib.paramGet param' j s

theorem paramSetFrom_overwrites (hlib : h.lib.LocalMemory) {param : Param} {bytes : List UInt8}
    (hmem : param ∈ h.lib.params s) (ht : param.type.integer = some t)
    (hbytes : t.size ≤ bytes.length) (count i : Nat) (hle : i + count ≤ param.arraySize) :
    ∃ s', (h.paramSetFrom param bytes count i).Returns s () s' ∧
      h.Overwrites param t (t.ofBytes bytes) (fun j => i ≤ j ∧ j < i + count) s s' := by
  induction count generalizing i s with
  | zero =>
      refine ⟨s, returns_pure () s, rfl, ?_, ?_⟩
      · intro j _ hj
        omega
      · intro _ _ _ _ _
        rfl
  | succ count ih =>
      have hlist := hlib.params_set param i bytes s
      rcases ih (hlist ▸ hmem) (i + 1) (by omega) with ⟨s', hrun, hover⟩
      refine ⟨s', .bind (returns_act _ _ s) hrun, hover.list.trans hlist, ?_, ?_⟩
      · intro j hj hcovers
        by_cases hji : j = i
        · -- the element that is set first is not set again
          rw [hji, hover.other param (hlist ▸ hmem) i (by omega) (by omega)]
          exact hlib.get_set param i bytes s t hmem (by omega) ht hbytes
        · exact hover.covered j hj (by omega)
      · intro param' hmem' j hj hcovers
        rw [hover.other param' (hlist ▸ hmem') j hj fun hc => hcovers ⟨hc.1, by omega⟩]
        exact hlib.get_set_other param i bytes s param' j hmem (by omega) hmem' hj
          fun hc => hcovers ⟨hc.1, by omega⟩

theorem setLocal_overwrites (hlib : h.lib.LocalMemory) {bytes : List UInt8}
    (hmem : p.param ∈ h.lib.params s) (ht : p.param.type.integer = some t)
    (hbytes : t.size ≤ bytes.length) (hrange : p.InRange) :
    ∃ s', (h.setLocal p.param p.offset bytes).Returns s () s' ∧
      h.Overwrites p.param t (t.ofBytes bytes) (fun j => p.offset < 0 ∨ p.offset = j) s s' := by
  rcases hrange with ⟨-, hlt⟩
  unfold setLocal
  split
  case isTrue hneg =>
    rcases paramSetFrom_overwrites hlib hmem ht hbytes p.param.arraySize 0 (by omega)
      with ⟨s', hrun, hover⟩
    refine ⟨s', hrun, hover.list, ?_, ?_⟩
    · intro j hj _
      exact hover.covered j hj (by omega)
    · intro param' hmem' j hj hcovers
      exact hover.other param' hmem' j hj fun hc => hcovers ⟨hc.1, .inl hneg⟩
  case isFalse hneg =>
    rcases paramSetFrom_overwrites hlib hmem ht hbytes 1 p.offset.toNat (by omega)
      with ⟨s', hrun, hover⟩
    refine ⟨s', hrun, hover.list, ?_, ?_⟩
    · intro j hj hcovers
      exact hover.covered j hj (by omega)
    · intro param' hmem' j hj hcovers
      exact hover.other param' hmem' j hj fun hc => hcovers ⟨hc.1, by omega⟩

/-- What has been overwritten has the value that an assignment gives it. -/
theorem Overwrites.holds {x : Int} {s' : P}
    (hover : h.Overwrites p.param t x (fun j => p.offset < 0 ∨ p.offset = j) s s')
    (hv : h.Holds params t v s) : h.Holds params t (p.assign x v) s' := by
  refine ⟨hover.list.trans hv.list, ?_⟩
  intro param hmem i hi
  unfold Place.assign
  by_cases hcovers : p.Covers param i
  · rw [if_pos hcovers]
    rcases hcovers with ⟨rfl, hcovers⟩
    exact hover.covered i hi hcovers
  · rw [if_neg hcovers, hover.other param (hv.list ▸ hmem) i hi hcovers]
    exact hv.values param hmem i hi

/-! ## One instruction -/

section Arithmetic

variable {ins : ProcInstruction} {a : Assignment} {type : ParamType}

/-- The reference of a result. -/
theorem target_place (ha : h.assignment s ins = some a) :
    ∃ name node, ins.target = some (name, node) ∧ h.place s name node = some a.result := by
  unfold assignment at ha
  unfold ProcInstruction.target
  cases hins : ins.instruction with
  | unop x op result =>
      simp only [hins, Option.bind_eq_bind, Option.bind_eq_some_iff] at ha
      rcases ha with ⟨unop, -, p, -, q, hq, ha⟩
      cases ha
      exact ⟨result, _, rfl, hq⟩
  | binop x op y result =>
      simp only [hins, Option.bind_eq_bind, Option.bind_eq_some_iff] at ha
      rcases ha with ⟨binop, -, p, -, q, -, r, hr, ha⟩
      cases ha
      exact ⟨result, _, rfl, hr⟩
  | _ => simp [hins] at ha

/-- A result is prepared for its place, unless that is read-only. -/
theorem prepareWrite_place (hp : h.place s name node = some p) {r : Operand F}
    (hr : r.sourceType.integer = some t) :
    (p.param.readonly = true ∧ (h.prepareWrite name r node).Returns s none s) ∨
      p.param.readonly = false ∧ ∃ w, (h.prepareWrite name r node).Returns s (some w) s ∧
        w.param = p.param ∧ w.offset = p.offset ∧ t.size ≤ w.valuebuf.length := by
  have hfetch := procFetchParam_place hp
  cases hro : p.param.readonly with
  | true =>
      refine .inl ⟨rfl, .bind hfetch ?_⟩
      dsimp only
      rw [if_pos hro]
      exact returns_pure none s
  | false =>
      rcases hbytes : leBytes t.size (r.toInt h.fl % 2 ^ t.width).toNat with bytes
      have hvalue : h.valueBytes p.param (some r) none s = some bytes :=
        hbytes ▸ operandToValuebuf_integer h.fl hr (h.lib.text s) rfl
      refine .inr ⟨rfl, ⟨p.param, h.scanOffset name,
        bytes ++ List.replicate (valuebufSize - bytes.length) 0, node⟩, .bind hfetch ?_, rfl,
        (place_eq_some hp).2.2.symm, ?_⟩
      · dsimp only
        rw [if_neg (by simp [hro])]
        refine .bind (returns_look _ s) ?_
        rw [hvalue]
        exact .bind (returns_report _ _ s) (returns_pure _ s)
      · rw [List.length_append, ← hbytes, leBytes_length]
        exact Nat.le_add_right _ _

variable (h) in
/-- The parameters of other types have kept their values. -/
def OthersKept (params : List Param) (type : ParamType) (s s' : P) : Prop :=
  ∀ param ∈ params, param.type ≠ type → ∀ i < param.arraySize,
    h.lib.paramGet param i s' = h.lib.paramGet param i s

theorem store_place (hlib : h.lib.LocalMemory) (hp : h.place s name node = some p)
    (hrange : p.InRange) (hv : h.Holds params t v s) (ht : p.param.type.integer = some t)
    {w : Write} (hparam : w.param = p.param) (hoffset : w.offset = p.offset)
    (hlength : t.size ≤ w.valuebuf.length) :
    ∃ s', (h.store w).Returns s 0 s' ∧
      h.Holds params t (p.assign (t.ofBytes w.valuebuf) v) s' ∧
      h.OthersKept params p.param.type s s' := by
  rcases place_param hp with ⟨hmem, hlocal⟩
  rcases setLocal_overwrites hlib hmem ht hlength hrange with ⟨s', hrun, hover⟩
  refine ⟨s', ?_, hover.holds hv, ?_⟩
  · unfold store storeValue
    rw [hparam, hoffset, if_pos hlocal]
    exact .bind hrun (returns_pure 0 s')
  · intro param hparams htype i hi
    exact hover.other param (hv.list ▸ hparams) i hi fun hc => htype (congrArg Param.type hc.1)

/-- An instruction executes its assignment. -/
theorem arithmetic_run (hlib : h.lib.LocalMemory) (ha : h.assignment s ins = some a)
    (hv : h.Holds params t v s) (ht : type.integer = some t) (hover : a.OverType type)
    (hallowed : a.Allowed t) :
    ∃ s', (h.procRuntimeArithmetic ins).Returns s (a.exec t v).1 s' ∧
      h.Holds params t (a.exec t v).2 s' ∧ h.OthersKept params type s s' := by
  rcases fetchOperation_place ha hv ht hover with ⟨operation, hfetch, hmatch⟩
  rcases target_place ha with ⟨name, node, htarget, hp⟩
  rcases hover a.result (by cases a <;> simp [Assignment.places, Assignment.result])
    with ⟨htype, hrange⟩
  have hzero := hmatch.refused_iff h.lib.typeCode hallowed
  unfold Assignment.exec
  rw [arithmetic_eq]
  cases hr : operation.perform h.fl h.lib.typeCode with
  | none =>
      -- a zero divisor, and nothing has been written
      have hnone : (h.arithmeticWrite ins).Returns s none s := by
        refine .bind hfetch ?_
        simp only [hr]
        exact returns_pure none s
      rw [if_pos (.inl (hzero.mp hr))]
      exact ⟨s, .bind hnone (returns_pure (-1) s), hv, fun _ _ _ _ _ => rfl⟩
  | some r =>
      have hsource : r.sourceType.integer = some t := by
        rw [(operation.low hmatch.isInteger (hmatch.shiftDefined hallowed) hr).1, hmatch.source]
        exact ht
      have hwrite : ∀ o s', (h.prepareWrite name r node).Returns s o s' →
          (h.arithmeticWrite ins).Returns s o s' := by
        intro o s' hprepared
        refine .bind hfetch ?_
        simp only [hr, htarget]
        exact hprepared
      have hnonzero : ¬ a.DividesByZero v := by
        rw [← hzero, hr]
        exact Option.some_ne_none r
      -- the destination has the type of the operand, so that it reads the exact result
      rcases prepareWrite_place hp hsource with
        ⟨hro, hprepared⟩ | ⟨hro, w, hprepared, hparam, hoffset, hlength⟩
      · rw [if_pos (.inr hro)]
        exact ⟨s, .bind (hwrite _ _ hprepared) (returns_pure (-1) s), hv, fun _ _ _ _ _ => rfl⟩
      · rw [if_neg (by simp [hnonzero, hro])]
        have hdest : w.param.type.integer = some t := by rw [hparam, htype, ht]
        have hstored := stored_same hfetch.1 (hwrite _ _ hprepared).1
          (hmatch.shiftDefined hallowed) (hmatch.source ▸ ht) hdest
        rcases store_place hlib hp hrange hv (htype ▸ ht) hparam hoffset hlength
          with ⟨s', hrun, hholds, hothers⟩
        rw [hstored, hmatch.exact_eq] at hholds
        exact ⟨s', .bind (hwrite _ _ hprepared) hrun, hholds, htype ▸ hothers⟩

end Arithmetic

/-! ## Runs -/

variable (h) in
/-- The values of the elements of parameters, as a type has them. -/
def valuesOf (t : IntegerType) (s : P) : Values := fun param i => t.ofRaw (h.lib.paramGet param i s)

variable (h) in
/-- The evaluation of an instruction, by the assignment that it stands for, with
the instructions that have been executed. -/
def evaluate (t : IntegerType) (s : P) (ins : ProcInstruction) :
    Cmd (Values × List ProcInstruction) := fun st =>
  match h.assignment s ins with
  | none => (-1, st)
  | some a => ((a.exec t st.1).1, (a.exec t st.1).2, st.2 ++ [ins])

variable (h) in
/-- A `unop` or `binop` on local parameters of a type, with one of the operators
of `Assignment.Allowed`. -/
def OverType (type : ParamType) (t : IntegerType) (s : P) (ins : ProcInstruction) : Prop :=
  ∃ a ∈ h.assignment s ins, a.OverType type ∧ a.Allowed t

instance (type : ParamType) (t : IntegerType) (s : P) (ins : ProcInstruction) :
    Decidable (h.OverType type t s ins) :=
  inferInstanceAs (Decidable (∃ a ∈ h.assignment s ins, _))

/-- Such an instruction has operands of the type only, whatever their values. -/
theorem OverType.not_hazard {type : ParamType} {s₀ : P} {ins : ProcInstruction}
    (hins : h.OverType type t s₀ ins) (ht : type.integer = some t) (hwidth : t.width ≤ 32)
    (hs : h.lib.params s = h.lib.params s₀) {operation : Operation F}
    (hfetch : ((h.fetchOperation ins).run s).value = some operation) :
    ¬ operation.Hazard h.fl := by
  rcases hins with ⟨a, ha, hover, hallowed⟩
  have hv : h.Holds (h.lib.params s) t (h.valuesOf t s) s := ⟨rfl, fun _ _ _ _ => rfl⟩
  rcases fetchOperation_place ((assignment_congr hs ins).trans ha) hv ht hover
    with ⟨operation', hfetch', hmatch⟩
  rw [hfetch'.1] at hfetch
  cases hfetch
  exact hmatch.not_hazard hallowed (fun param i => t.wrap_wrap _) hwidth

/-- Such an instruction is neither a condition nor a call. -/
theorem OverType.plain {type : ParamType} {ins : ProcInstruction}
    (hins : h.OverType type t s ins) :
    ins.instruction.isIfelse = false ∧ ins.instruction.callSlot = none := by
  rcases hins with ⟨a, ha, -⟩
  unfold Host.assignment at ha
  cases hins : ins.instruction with
  | unop => exact ⟨rfl, rfl⟩
  | binop => exact ⟨rfl, rfl⟩
  | _ => simp [hins] at ha

end Host

namespace RuntimeHost

variable {P F T : Type} {h : RuntimeHost P F T} {params : P} {type : ParamType}
variable {t : IntegerType}

variable (h) in
/-- The effects of a run against an evaluation. -/
structure Agrees (params : P) (type : ParamType) (t : IntegerType) (e : Effects (Session P))
    (st : Values × List ProcInstruction) : Prop where
  holds : h.Holds (h.lib.params params) t st.1 e.params.params
  others : h.OthersKept (h.lib.params params) type params e.params.params
  trace : e.trace = st.2

/-- Executing an instruction and evaluating it come to the same. -/
theorem execPlain_simulates (hlib : h.lib.LocalMemory) (ht : type.integer = some t)
    (call : UInt8 → Cmd (Effects (Session P))) {ins : ProcInstruction}
    (hins : h.OverType type t params ins) :
    Cmd.Simulates (h.Agrees params type t) (Structured.execPlain h.handlers call ins)
      (h.evaluate t params ins) := by
  rcases hins with ⟨a, ha, hover, hallowed⟩
  rintro e ⟨v, trace⟩ ⟨hholds, hothers, rfl⟩
  have ha' := (Host.assignment_congr hholds.list ins).trans ha
  rcases Host.arithmetic_run hlib ha' hholds ht hover hallowed with ⟨s', ⟨hret, hstate⟩, hv, hkept⟩
  have hexec : Structured.execPlain h.handlers call ins e =
      let o := (h.procRuntimeArithmetic ins).run e.params.params
      (o.value, e.log ins ⟨o.state, e.params.log ++ [(ins, o.accesses)]⟩) := by
    unfold Structured.execPlain Host.procRuntimeArithmetic
    unfold Host.assignment at ha
    cases hins : ins.instruction with
    | unop => rfl
    | binop => rfl
    | _ => simp [hins] at ha
  rw [hexec]
  unfold Host.evaluate
  dsimp only
  rw [hret, hstate]
  rw [show h.assignment params ins = some a from ha]
  refine ⟨rfl, hv, ?_, rfl⟩
  intro param hmem htype i hi
  exact (hkept param hmem htype i hi).trans (hothers param hmem htype i hi)

theorem isIfelseAt_false {l : List ProcInstruction}
    (hl : ∀ ins ∈ l, ins.instruction.isIfelse = false) {i : Nat} : isIfelseAt l i = false := by
  unfold isIfelseAt
  cases hins : l[i]? with
  | none => rfl
  | some ins => exact hl ins (List.mem_of_getElem? hins)

/-- Without conditions a procedure is the sequence of its instructions. -/
theorem exec_plain {S : Type} (handlers : Handlers S) (call : UInt8 → Cmd (Effects S))
    {l : List ProcInstruction} (hl : ∀ ins ∈ l, ins.instruction.isIfelse = false) :
    Structured.exec handlers call l =
      Cmd.block (l.map (Structured.execPlain handlers call)) := by
  induction l with
  | nil => rfl
  | cons ins l ih =>
      rw [Structured.exec_plain handlers call (hl ins List.mem_cons_self),
        ih fun ins' hins' => hl ins' (List.mem_cons_of_mem ins hins'), List.map_cons,
        Cmd.block_cons]

/-- Procedures of `unop` and `binop` on local parameters of one integer type of up
to 32 bits compute in that type, and perform no operation that C leaves undefined.
A run ends as the evaluation of the procedure does: with -1 at the first zero
divisor or result that is read-only, with the values that it had before, and
otherwise with 0 and the values that were assigned. -/
theorem one_type_run {memory : Memory} {maxDepth : Nat} {reuseFrames : Bool}
    (hlib : h.lib.LocalMemory) (ht : type.integer = some t) (hwidth : t.width ≤ 32)
    (hproc : ∀ ins ∈ (memory.1 .root).instructions, h.OverType type t params ins) :
    (∃ e, Runs (h.interp maxDepth reuseFrames memory).step
        (h.start maxDepth reuseFrames memory params)
        (.returned [] 0 ((Cmd.block ((memory.1 .root).instructions.map (h.evaluate t params))
          (h.valuesOf t params, [])).1, e)) ∧
      h.Agrees params type t e (Cmd.block
        ((memory.1 .root).instructions.map (h.evaluate t params)) (h.valuesOf t params, [])).2) ∧
    ∀ ins ∈ (memory.1 .root).instructions, ∀ s, h.lib.params s = h.lib.params params →
      ∀ operation, ((h.fetchOperation ins).run s).value = some operation →
        ¬ operation.Hazard h.fl := by
  constructor
  · -- without conditions and calls, the run is that of the sequence of instructions
    have hplain : ∀ ins ∈ (memory.1 .root).instructions, ins.instruction.isIfelse = false :=
      fun ins hins => (hproc ins hins).plain.1
    have hrestricted : Restricted (memory.1 .root).instructions := by
      intro i hi hif
      rw [isIfelseAt_false hplain] at hif
      cases hif
    have hcalls : CallsReturn (h.interp maxDepth reuseFrames memory) .root 0 0
        fun _ => Cmd.skip := by
      intro i ins slot flag callers c e hins hcall
      have hnone := (hproc ins (List.mem_of_getElem? hins)).plain.2
      simp [hcall, Instruction.callSlot] at hnone
    have hrun := enter_structured hrestricted (Nat.zero_le _) hcalls [] (.returning 0 [])
      ⟨⟨params, []⟩, [], false⟩
    have hsim := Cmd.Simulates.block (R := h.Agrees params type t) fun ins hins =>
      execPlain_simulates hlib ht (fun _ => Cmd.skip) (hproc ins hins)
    rcases hsim ⟨⟨params, []⟩, [], false⟩ (h.valuesOf t params, [])
      ⟨⟨rfl, fun _ _ _ _ => rfl⟩, fun _ _ _ _ _ => rfl, rfl⟩ with ⟨hret, hagrees⟩
    rw [show (h.interp maxDepth reuseFrames memory).code .root = memory.1 .root from rfl,
      exec_plain _ _ hplain] at hrun
    refine ⟨_, ?_, hagrees⟩
    rw [← hret]
    exact hrun
  · intro ins hins s hs operation hfetch
    exact (hproc ins hins).not_hazard ht hwidth hs hfetch

end RuntimeHost

/-! ## A node with elements -/

/-- A libparam whose parameters have the elements that they say. -/
def Libparam.elements : Libparam (List Param × (Param → Nat → UInt64)) where
  params s := s.1
  strmatch name pattern := name == pattern
  paramListDownload _ s := (0, s)
  paramPullSingle _ _ _ s := (0, s)
  paramPushSingle _ _ _ _ s := (0, s)
  paramGet param i s := s.2 param i
  paramSet param i bytes s :=
    (s.1, fun param' j =>
      if param' = param ∧ j = i then .ofNat (leValue (bytes.take 8)) else s.2 param' j)
  paramStrToValue := Libparam.cells.paramStrToValue
  clearTimestamp _ s := s
  text _ _ := CStr.nil
  typeCode type := type.ctorIdx

theorem Libparam.elements_localMemory : Libparam.elements.LocalMemory where
  params_set _ _ _ _ := rfl
  get_set param i bytes s t _ _ ht _ := by
    have hwidth := ParamType.width_le ht
    have hset : Libparam.elements.paramGet param i (Libparam.elements.paramSet param i bytes s) =
        .ofNat (leValue (bytes.take 8)) := if_pos ⟨rfl, rfl⟩
    rw [hset]
    unfold IntegerType.ofRaw IntegerType.ofBytes
    rw [t.wrap_eq_iff, leValue_take, leValue_take, UInt64.toNat_ofNat',
      show 256 ^ 8 = 2 ^ 64 from rfl, Nat.mod_mod, Int.natCast_mod, Int.natCast_mod]
    have hpow : ((256 ^ t.size : Nat) : Int) = 2 ^ t.width := by
      push_cast
      exact t.pow_width
    rw [hpow, Int.emod_emod_of_dvd _ (Int.dvd_refl (2 ^ t.width))]
    exact Int.emod_emod_of_dvd _ (pow_dvd_pow 2 hwidth)
  get_set_other param i bytes s param' j _ _ _ _ hne := if_neg hne

/-- A node with such parameters. -/
def hostElements : RuntimeHost (List Param × (Param → Nat → UInt64)) Float Timespec where
  lib := .elements
  fl := .ieee
  ifaces := [1]
  overlong k := cInt k
  ackOnPush := true
  clock := .posix (fun s => (some ⟨0, 0⟩, s)) id ⟨0, 0⟩ 5000000
  maxPolls := 1

/-- Signed bytes `k` and `l`, both 100, and `m`. -/
def signedBytes (m : Param) : List Param × (Param → Nat → UInt64) :=
  ([numberParam nameK .int8, numberParam nameL .int8, m], fun _ _ => 100)

/-- `proc binop k + l m` and `proc binop m / l m`. -/
def summing : Proc :=
  ⟨[⟨0, .binop nameK 0 nameL nameM⟩, ⟨0, .binop nameM 3 nameL nameM⟩], by decide⟩

/-- 100 + 100 is -56 in a signed byte, and a hundredth of that is 0. -/
theorem one_type_run_summing :
    ∃ e, Runs (hostElements.interp 1000 true (onlyProc summing)).step
        (hostElements.start 1000 true (onlyProc summing) (signedBytes signedResult))
        (.returned [] 0 (0, e)) ∧
      (⟨true, 1⟩ : IntegerType).ofRaw (e.params.params.2 signedResult 0) = 0 := by
  rcases (@RuntimeHost.one_type_run _ _ _ hostElements (signedBytes signedResult) .int8 ⟨true, 1⟩
    (onlyProc summing) 1000 true Libparam.elements_localMemory rfl (by decide)
    (by decide)).1 with ⟨e, hrun, hagrees⟩
  refine ⟨e, ?_, ?_⟩
  · rwa [show (Cmd.block (((onlyProc summing).1 .root).instructions.map
      (hostElements.evaluate ⟨true, 1⟩ (signedBytes signedResult)))
      (hostElements.valuesOf ⟨true, 1⟩ (signedBytes signedResult), [])).1 = 0 by decide]
      at hrun
  · refine (hagrees.holds.values signedResult (by decide) 0 (by decide)).trans ?_
    decide

/-- `m`, a signed byte that is read-only. -/
def readonlyResult : Param := { signedResult with readonly := true }

/-- `proc unop k ++ m`. -/
def incrementingProc : Proc := ⟨[incrementing], by decide⟩

/-- An instruction whose result is read-only ends the run, although nothing is
divided, and its result is not assigned. -/
theorem readonly_result_stops :
    (∀ ins ∈ incrementingProc.instructions,
      hostElements.OverType .int8 ⟨true, 1⟩ (signedBytes readonlyResult) ins ∧
      ∀ a ∈ hostElements.assignment (signedBytes readonlyResult) ins, ∀ v,
        ¬ a.DividesByZero v) ∧
    ∃ u, Runs (hostElements.interp 1000 true (onlyProc incrementingProc)).step
        (hostElements.start 1000 true (onlyProc incrementingProc) (signedBytes readonlyResult)) u ∧
      u.control = .returning (-1) [] ∧
      (⟨true, 1⟩ : IntegerType).ofRaw (u.effects.params.params.2 readonlyResult 0) ≠ 100 + 1 := by
  refine ⟨?_, (hostElements.interp 1000 true (onlyProc incrementingProc)).steps 1
    (hostElements.start 1000 true (onlyProc incrementingProc) (signedBytes readonlyResult)),
    ⟨1, rfl⟩, ?_, ?_⟩
  · intro ins hins
    rcases List.mem_singleton.mp hins with rfl
    refine ⟨by decide, ?_⟩
    intro a ha v hzero
    simp only [Host.assignment, incrementing, Option.bind_eq_bind, Option.mem_def,
      Option.bind_eq_some_iff] at ha
    rcases ha with ⟨op, -, p, -, q, -, ha⟩
    cases ha
    exact hzero
  · decide
  · decide

end CspProc
