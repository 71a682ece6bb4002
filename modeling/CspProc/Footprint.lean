import CspProc.Instructions

/-! # What the handlers access

The handlers talk to the node that they are called with, and to no other.

* `procFetchParam_within` — a search on a node asks that node only, and ends
  with a parameter of it;
* `procSetParam_within` — the same for a write, which reaches the node where the
  parameter was searched;
* `procRuntimeUnop_within` and its likes — what each handler accesses;
* `touches_of_sure` — the same for the instruction that is executed.

All of this holds as long as the guard against endless loops ends no search at a
parameter of another node (`Access.Sure`), and says nothing of owners without
that (`Own` is then true of everything).
-/

namespace CspProc

variable {P F T : Type}

namespace Host

variable (h : Host P F)

/-- A node that is neither 0 nor the address of a local interface. -/
def Foreign (node : UInt16) : Prop := node ≠ 0 ∧ node ∉ h.ifaces

instance (node : UInt16) : Decidable (h.Foreign node) :=
  inferInstanceAs (Decidable (node ≠ 0 ∧ node ∉ h.ifaces))

/-- A parameter of a node: a local interface is this node's, whose own
parameters have node 0. -/
def Owns (node : UInt16) (param : Param) : Prop :=
  param.node = node ∨ param.node = 0 ∧ node ∈ h.ifaces

instance (node : UInt16) (param : Param) : Decidable (h.Owns node param) :=
  inferInstanceAs (Decidable (param.node = node ∨ param.node = 0 ∧ node ∈ h.ifaces))

variable {h}

theorem Owns.of_zero {param : Param} (ho : h.Owns 0 param) : param.node = 0 := by
  rcases ho with ho | ⟨ho, -⟩
  · exact ho
  · exact ho

theorem Owns.of_foreign {node : UInt16} {param : Param} (ho : h.Owns node param)
    (hf : h.Foreign node) : param.node = node := by
  rcases ho with ho | ⟨-, ho⟩
  · exact ho
  · exact absurd ho hf.2

end Host

/-! ## Searches -/

/-- The array holds nothing but the initial entries and interface addresses. -/
theorem mem_scanIfaces {node : UInt16} {ifaces : List UInt16} {i : Nat} {l : LocalAddrs} {a : Int}
    (ha : a ∈ (scanIfaces node ifaces i l).addrs) :
    a ∈ l.addrs ∨ ∃ addr ∈ ifaces, a = addr.toNat := by
  induction ifaces generalizing i l with
  | nil => exact .inl ha
  | cons addr ifaces ih =>
      unfold scanIfaces at ha
      by_cases hi : i < 10
      · rw [if_pos hi] at ha
        rcases ih ha with ha | ⟨b, hb, ha⟩
        · rcases List.mem_or_eq_of_mem_set ha with ha | ha
          · exact .inl ha
          · exact .inr ⟨addr, by simp, ha⟩
        · exact .inr ⟨b, by simp [hb], ha⟩
      · rw [if_neg hi] at ha
        exact .inl ha

theorem mem_localAddrs {n node : UInt16} {ifaces : List UInt16}
    (ha : (node.toNat : Int) ∈ (localAddrs n ifaces).addrs) : node = 0 ∨ node ∈ ifaces := by
  rcases mem_scanIfaces ha with ha | ⟨addr, haddr, ha⟩
  · have h0 : (node.toNat : Int) = -1 ∨ (node.toNat : Int) = 0 := by simpa using ha
    refine .inl (UInt16.toNat_inj.mp ?_)
    show node.toNat = 0
    omega
  · obtain rfl : node = addr := UInt16.toNat_inj.mp (by omega)
    exact .inr haddr

/-- A download is only made for a node that is no interface. -/
theorem isRemoteParam_scanIfaces {node : UInt16} {ifaces : List UInt16} {i : Nat} {l : LocalAddrs}
    (hr : (scanIfaces node ifaces i l).isRemoteParam = true) : l.isRemoteParam = true := by
  induction ifaces generalizing i l with
  | nil => exact hr
  | cons addr ifaces ih =>
      unfold scanIfaces at hr
      by_cases hi : i < 10
      · rw [if_pos hi] at hr
        have := ih hr
        simp only [Bool.and_eq_true] at this
        exact this.1
      · rw [if_neg hi] at hr
        exact hr

theorem ne_zero_of_isRemoteParam {node : UInt16} {ifaces : List UInt16}
    (hr : (localAddrs node ifaces).isRemoteParam = true) : node ≠ 0 := by
  simpa using isRemoteParam_scanIfaces hr

/-- What the loop over the parameters returns without the guard: a parameter of
this node when the node is local, or one of the node that is then pulled. -/
def Lookup.Sound (node : UInt16) (addrs : List Int) : Lookup → Prop
  | .found param => param.node = 0 ∧ (node = 0 ∨ (node.toNat : Int) ∈ addrs)
  | .remote param => param.node = node ∧ node ≠ 0
  | .absent | .exhausted _ => True

theorem lookup_sound (strmatch : Param → Bool) (node : UInt16) (addrs : List Int) (g : Nat)
    (params : List Param) : (lookup strmatch node addrs g params).Sound node addrs := by
  induction params generalizing g with
  | nil => trivial
  | cons param params ih =>
      unfold lookup
      by_cases hg : g < infLoopGuard
      · rw [if_pos hg]
        by_cases hm : strmatch param
        · rw [if_pos hm]
          by_cases hn : param.node = node
          · rw [if_neg (not_not.mpr hn)]
            by_cases h0 : param.node = 0
            · rw [if_pos h0]
              exact ⟨h0, .inl (hn.symm.trans h0)⟩
            · rw [if_neg h0]
              exact ⟨hn, hn ▸ h0⟩
          · rw [if_pos hn]
            by_cases hc : (addrs.contains (node.toNat : Int) && param.node = 0) = true
            · rw [if_pos hc]
              simp only [Bool.and_eq_true, List.contains_iff_mem, decide_eq_true_eq] at hc
              exact ⟨hc.2, .inr hc.1⟩
            · rw [if_neg hc]
              exact ih (g + 1)
        · rw [if_neg hm]
          exact ih (g + 1)
      · rw [if_neg hg]
        trivial

/-! ## Accesses of the helpers -/

/-- What the search for a parameter on a node may do. -/
def Access.Looks (node : UInt16) : Access → Prop
  | .download n => n = node ∧ node ≠ 0
  | .pull param n => n = node ∧ param.node = node ∧ node ≠ 0
  | .exhausted .. | .stray => True
  | .get _ | .set _ | .push .. => False

/-- A search that its guard ends has come to a parameter of the node after all. -/
def Access.Sure (Own : UInt16 → Param → Prop) : Access → Prop
  | .exhausted param node => Own node param
  | _ => True

/-- A search, and reading what it finds. -/
def Access.Reads (Own : UInt16 → Param → Prop) (node : UInt16) : Access → Prop
  | .get param => Own node param
  | a => a.Looks node

/-- A search, and writing what it finds. -/
def Access.Stores (Own : UInt16 → Param → Prop) (node : UInt16) : Access → Prop
  | .set param => Own node param ∧ param.node = 0
  | .push param n => n = node ∧ Own node param ∧ param.node ≠ 0
  | a => a.Looks node

namespace Access

variable {Own : UInt16 → Param → Prop} {node : UInt16} {a : Access}

theorem Looks.reads (ha : a.Looks node) : a.Reads Own node := by
  cases a with
  | get => exact ha.elim
  | _ => exact ha

theorem Looks.stores (ha : a.Looks node) : a.Stores Own node := by
  cases a with
  | set => exact ha.elim
  | push => exact ha.elim
  | _ => exact ha

end Access

namespace Host

open Traced

variable (h : Host P F) {Own : UInt16 → Param → Prop}

/-- `proc_set_param` gets as far as its write. -/
def writable (name : CStr) (operand : Option (Operand F)) (valueStr : Option CStr) (node : UInt16)
    (s : P) : Bool :=
  let o := (h.procFetchParam name node).run s
  match o.value with
  | none => false
  | some param => ! param.readonly && (h.valueBytes param operand valueStr o.state).isSome

/-- A `binop` gets as far as its write: its operands are found and can be
combined, and its result is found on the node of the operands, where it can be
written. -/
def binopWrites (ins : ProcInstruction) (s : P) : Bool :=
  match ins.instruction with
  | .binop a op b result =>
      let o := (h.binopResult a op b ins.node).run s
      match o.value with
      | none => false
      | some operand => h.writable result (some operand) none ins.node o.state
  | _ => false

/-- A search ends at a parameter of the node that was asked for. -/
theorem search_owned {name : CStr} {node : UInt16} {s : P} {param : Param}
    (hl : h.search name node s = .found param ∨ h.search name node s = .remote param) :
    h.Owns node param := by
  have hsound := lookup_sound (fun param => h.lib.strmatch param.name.bytes
    ((cutIndex (h.scanOffset name) name.bytes).getD name.bytes)) node
    (localAddrs node h.ifaces).addrs 0 (h.lib.params s)
  rcases hl with hl | hl
  · rw [search] at hl
    rw [hl] at hsound
    rcases hsound with ⟨h0, hnode⟩
    rcases hnode with rfl | hmem
    · exact .inl h0
    · rcases mem_localAddrs hmem with rfl | hiface
      · exact .inl h0
      · exact .inr ⟨h0, hiface⟩
  · rw [search] at hl
    rw [hl] at hsound
    exact .inl hsound.1

theorem search_remote {name : CStr} {node : UInt16} {s : P} {param : Param}
    (hl : h.search name node s = .remote param) : param.node = node ∧ node ≠ 0 := by
  have hsound := lookup_sound (fun param => h.lib.strmatch param.name.bytes
    ((cutIndex (h.scanOffset name) name.bytes).getD name.bytes)) node
    (localAddrs node h.ifaces).addrs 0 (h.lib.params s)
  rw [search] at hl
  rwa [hl] at hsound

variable {h}

/-- `proc_fetch_param` talks to its node only, and what it returns is a
parameter of that node. -/
theorem procFetchParam_within (hown : ∀ node param, h.Owns node param → Own node param)
    (name : CStr) (node : UInt16) (s : P) :
    Within (Access.Sure Own) (Access.Looks node)
      (fun r _ => ∀ param, r = some param → Own node param) (h.procFetchParam name node) s := by
  unfold procFetchParam
  refine within_bind (within_report trivial fun _ => ?_)
  refine within_bind (within_report trivial fun _ => ?_)
  have hdownload : Within (Access.Sure Own) (Access.Looks node) (fun _ _ => True)
      (h.downloadList (localAddrs node h.ifaces).isRemoteParam node) s :=
    within_ite (fun hr => within_act fun _ => ⟨⟨rfl, ne_zero_of_isRemoteParam hr⟩, trivial⟩)
      fun _ => within_pure trivial
  refine within_seq hdownload fun ret s' _ => ?_
  refine within_ite (fun _ => within_pure (by simp)) fun _ => ?_
  refine within_bind (within_look ?_)
  cases hl : h.search name node s' with
  | absent => exact within_pure (by simp)
  | found param =>
      refine within_pure ?_
      intro p hp
      obtain rfl := Option.some.inj hp
      exact hown _ _ (h.search_owned (.inl hl))
  | remote param =>
      rcases h.search_remote hl with ⟨hnode, h0⟩
      refine within_bind (within_act fun _ => ⟨⟨rfl, hnode, h0⟩, within_pure ?_⟩)
      intro p hp
      split at hp
      · cases hp
      · obtain rfl := Option.some.inj hp
        exact hown _ _ (.inl hnode)
  | exhausted param =>
      -- of this parameter nothing is known but what is relied on
      refine within_bind (within_report trivial fun hrely => within_pure ?_)
      intro p hp
      obtain rfl := Option.some.inj hp
      exact hrely rfl

theorem parseParamToOperand_within {param : Param} {node : UInt16} (ho : Own node param)
    (offset : Int) (s : P) :
    Within (Access.Sure Own) (Access.Reads Own node) (fun _ _ => True)
      (h.parseParamToOperand param offset) s := by
  unfold parseParamToOperand
  refine within_ite (fun _ => within_pure trivial) fun _ => ?_
  exact within_bind (within_act fun _ => ⟨ho, within_pure trivial⟩)

/-- An operand is read from a parameter of the node that it is asked of. -/
theorem fetchOperandParamPair_within (hown : ∀ node param, h.Owns node param → Own node param)
    (name : CStr) (node : UInt16) (s : P) :
    Within (Access.Sure Own) (Access.Reads Own node) (fun _ _ => True)
      (h.fetchOperandParamPair name node) s := by
  unfold fetchOperandParamPair
  refine within_seq ((procFetchParam_within hown name node s).weaken fun _ _ ha => ha.reads) ?_
  rintro (_ | param) s' howned
  · exact within_pure trivial
  · exact within_seq (parseParamToOperand_within (howned param rfl) _ s') fun _ _ _ =>
      within_pure trivial

theorem paramSetFrom_within {param : Param} {node : UInt16} (ho : Own node param)
    (h0 : param.node = 0) (valuebuf : List UInt8) (count i : Nat) (s : P) :
    Within (Access.Sure Own) (Access.Stores Own node) (fun _ _ => True)
      (h.paramSetFrom param valuebuf count i) s := by
  induction count generalizing i s with
  | zero => exact within_pure trivial
  | succ count ih => exact within_bind (within_act fun _ => ⟨⟨ho, h0⟩, ih (i + 1) _⟩)

/-- A value is stored on this node in this node's parameters only, and sent to
the node where the parameter was searched otherwise. -/
theorem storeValue_within {param : Param} {node : UInt16} (ho : Own node param) (offset : Int)
    (valuebuf : List UInt8) (s : P) :
    Within (Access.Sure Own) (Access.Stores Own node) (fun _ _ => True)
      (h.storeValue param offset valuebuf node) s := by
  unfold storeValue
  refine within_ite (fun h0 => ?_) fun h0 => ?_
  · have hset : Within (Access.Sure Own) (Access.Stores Own node) (fun _ _ => True)
        (h.setLocal param offset valuebuf) s :=
      within_ite (fun _ => paramSetFrom_within ho h0 valuebuf _ _ s)
        fun _ => paramSetFrom_within ho h0 valuebuf _ _ s
    exact within_seq hset fun _ _ _ => within_pure trivial
  · refine within_bind (within_tick ?_)
    exact within_bind (within_act fun _ => ⟨⟨rfl, ho, h0⟩, within_pure trivial⟩)

/-- `proc_set_param` writes a parameter of the node that it is called with. -/
theorem procSetParam_within (hown : ∀ node param, h.Owns node param → Own node param)
    (name : CStr) (operand : Option (Operand F)) (valueStr : Option CStr) (node : UInt16) (s : P) :
    Within (Access.Sure Own) (Access.Stores Own node) (fun _ _ => True)
      (h.procSetParam name operand valueStr node) s := by
  unfold procSetParam
  refine within_ite (fun _ => within_pure trivial) fun _ => ?_
  refine within_seq ((procFetchParam_within hown name node s).weaken fun _ _ ha => ha.stores) ?_
  rintro (_ | param) s' howned
  · exact within_pure trivial
  · refine within_ite (fun _ => within_pure trivial) fun _ => ?_
    refine within_bind (within_look ?_)
    cases h.valueBytes param operand valueStr s' with
    | none => exact within_pure trivial
    | some bytes =>
        refine within_bind (within_report trivial fun _ => ?_)
        exact storeValue_within (howned param rfl) _ _ s'

/-! ## Accesses of the handlers -/

theorem compareOperands_within {paramA paramB : Param} {node : UInt16} (ha : Own node paramA)
    (hb : Own node paramB) (op : UInt32) (a b : Operand F) (s : P) :
    Within (Access.Sure Own) (Access.Reads Own node) (fun _ _ => True)
      (h.compareOperands op paramA paramB a b) s := by
  unfold compareOperands
  cases a.type with
  | uint => exact within_ite (fun _ => within_pure trivial) fun _ => within_pure trivial
  | int => exact within_ite (fun _ => within_pure trivial) fun _ => within_pure trivial
  | float => exact within_ite (fun _ => within_pure trivial) fun _ => within_pure trivial
  | string =>
      refine within_ite (fun _ => within_pure trivial) fun _ => ?_
      refine within_bind (within_act fun _ => ⟨ha, ?_⟩)
      exact within_bind (within_act fun _ => ⟨hb, within_pure trivial⟩)

/-- A condition reads parameters of its node, and writes nothing. -/
theorem procRuntimeIfelse_within (hown : ∀ node param, h.Owns node param → Own node param)
    (ins : ProcInstruction) (s : P) :
    Within (Access.Sure Own) (Access.Reads Own ins.node) (fun _ _ => True)
      (h.procRuntimeIfelse ins) s := by
  unfold procRuntimeIfelse
  cases ins.instruction with
  | ifelse a op b =>
      have hfetch (name : CStr) (s : P) : Within (Access.Sure Own) (Access.Reads Own ins.node)
          (fun r _ => ∀ param, r = some param → Own ins.node param)
          (h.procFetchParam name ins.node) s :=
        (procFetchParam_within hown name ins.node s).weaken fun _ _ ha => ha.reads
      refine within_seq (hfetch a s) fun paramA s₁ hA => ?_
      refine within_seq (hfetch b s₁) fun paramB s₂ hB => ?_
      rcases paramA with _ | paramA
      · exact within_pure trivial
      rcases paramB with _ | paramB
      · exact within_pure trivial
      refine within_ite (fun _ => within_pure trivial) fun _ => ?_
      refine within_seq (fetchOperandParamPair_within hown a ins.node s₂) ?_
      rintro (_ | ⟨operandA, -⟩) s₃ -
      · exact within_pure trivial
      refine within_seq (fetchOperandParamPair_within hown b ins.node s₃) ?_
      rintro (_ | ⟨operandB, -⟩) s₄ -
      · exact within_pure trivial
      · exact compareOperands_within (hA paramA rfl) (hB paramB rfl) op operandA operandB s₄
  | _ => exact within_pure trivial

theorem procRuntimeSet_within (hown : ∀ node param, h.Owns node param → Own node param)
    (ins : ProcInstruction) (s : P) :
    Within (Access.Sure Own) (Access.Stores Own ins.node) (fun _ _ => True)
      (h.procRuntimeSet ins) s := by
  unfold procRuntimeSet
  cases ins.instruction with
  | set param value => exact procSetParam_within hown param none (some value) ins.node s
  | _ => exact within_pure trivial

/-- Without its write, `proc_set_param` only searches. -/
theorem procSetParam_within_looks (hown : ∀ node param, h.Owns node param → Own node param)
    {name : CStr} {operand : Option (Operand F)} {valueStr : Option CStr} {node : UInt16} {s : P}
    (hw : h.writable name operand valueStr node s = false) :
    Within (Access.Sure Own) (Access.Looks node) (fun _ _ => True)
      (h.procSetParam name operand valueStr node) s := by
  unfold procSetParam
  refine within_ite (fun _ => within_pure trivial) fun _ => ?_
  refine within_seq (procFetchParam_within hown name node s).exact ?_
  rintro r s' ⟨-, hr, rfl⟩
  simp only [writable, ← hr] at hw
  cases r with
  | none => exact within_pure trivial
  | some param =>
      refine within_ite (fun _ => within_pure trivial) fun hro => ?_
      refine within_bind (within_look ?_)
      cases hv : h.valueBytes param operand valueStr ((h.procFetchParam name node).run s).state with
      | none => exact within_pure trivial
      | some bytes => simp [hro, hv] at hw

theorem procRuntimeUnop_within (hown : ∀ node param, h.Owns node param → Own node param)
    {ins : ProcInstruction} {param result : CStr} {op : UInt32}
    (hins : ins.instruction = .unop param op result) (s : P) :
    Within (Access.Sure Own)
      (fun a => a.Reads Own (fetchNode op ins.node) ∨ a.Stores Own (resultNode op ins.node))
      (fun _ _ => True) (h.procRuntimeUnop ins) s := by
  unfold procRuntimeUnop
  rw [hins]
  refine within_seq ((fetchOperandParamPair_within hown param _ s).weaken
    fun _ _ ha => Or.inl ha) ?_
  rintro (_ | ⟨operand, -⟩) s' -
  · exact within_pure trivial
  show Within _ _ _ (match unopOperand h.fl h.lib.typeCode op operand with
    | none => pure (-1)
    | some operand => h.procSetParam result (some operand) none (resultNode op ins.node)) s'
  cases unopOperand h.fl h.lib.typeCode op operand with
  | none => exact within_pure trivial
  | some operand =>
      exact (procSetParam_within hown result (some operand) none _ s').weaken
        fun _ _ ha => Or.inr ha

theorem binopResult_within (hown : ∀ node param, h.Owns node param → Own node param)
    (a : CStr) (op : UInt32) (b : CStr) (node : UInt16) (s : P) :
    Within (Access.Sure Own) (Access.Reads Own node) (fun _ _ => True)
      (h.binopResult a op b node) s := by
  unfold binopResult
  refine within_seq (fetchOperandParamPair_within hown a node s) ?_
  rintro (_ | ⟨operandA, -⟩) s' -
  · exact within_pure trivial
  refine within_seq (fetchOperandParamPair_within hown b node s') ?_
  rintro (_ | ⟨operandB, -⟩) s'' -
  · exact within_pure trivial
  · exact within_pure trivial

theorem procRuntimeBinop_within (hown : ∀ node param, h.Owns node param → Own node param)
    (ins : ProcInstruction) (s : P) :
    Within (Access.Sure Own) (fun a => a.Reads Own ins.node ∨ a.Stores Own ins.node)
      (fun _ _ => True) (h.procRuntimeBinop ins) s := by
  unfold procRuntimeBinop
  cases ins.instruction with
  | binop a op b result =>
      refine within_seq ((binopResult_within hown a op b ins.node s).weaken
        fun _ _ ha => Or.inl ha) ?_
      rintro (_ | operand) s' -
      · exact within_pure trivial
      · exact (procSetParam_within hown result (some operand) none ins.node s').weaken
          fun _ _ ha => Or.inr ha
  | _ => exact within_pure trivial

/-- A `binop` that does not come to its write only reads, on its node. -/
theorem procRuntimeBinop_within_reads (hown : ∀ node param, h.Owns node param → Own node param)
    {ins : ProcInstruction} {s : P} (hw : h.binopWrites ins s = false) :
    Within (Access.Sure Own) (Access.Reads Own ins.node) (fun _ _ => True)
      (h.procRuntimeBinop ins) s := by
  unfold procRuntimeBinop
  unfold binopWrites at hw
  cases hins : ins.instruction with
  | binop a op b result =>
      rw [hins] at hw
      refine within_seq (binopResult_within hown a op b ins.node s).exact ?_
      rintro r s' ⟨-, hr, rfl⟩
      simp only [← hr] at hw
      cases r with
      | none => exact within_pure trivial
      | some operand =>
          exact (procSetParam_within_looks hown hw).weaken fun _ _ ha => ha.reads
  | _ => exact within_pure trivial

end Host

namespace RuntimeHost

open Traced

variable (h : RuntimeHost P F T) {Own : UInt16 → Param → Prop}

/-- What an instruction accesses by the code: as `binop` has it, the result is
searched on the node of the operands. -/
def Touches (Own : UInt16 → Param → Prop) (ins : ProcInstruction) (a : Access) : Prop :=
  match ins.instruction with
  | .block .. | .ifelse .. => a.Reads Own ins.node
  | .set .. => a.Stores Own ins.node
  | .unop _ op _ =>
      a.Reads Own (Host.fetchNode op ins.node) ∨ a.Stores Own (Host.resultNode op ins.node)
  | .binop .. => a.Reads Own ins.node ∨ a.Stores Own ins.node
  | .call _ | .noop | .unknown .. => False

variable {h}

/-- Polling a condition is all that the loop of a block does to parameters. -/
theorem blockLoop_within {poll : Traced Access P Condition} {ok : Access → Prop}
    (hpoll : ∀ s, Within (Access.Sure Own) ok (fun _ _ => True) poll s) (deadline : T)
    (polls : Nat) (s : P) :
    Within (Access.Sure Own) ok (fun _ _ => True) (h.blockLoop poll deadline polls) s := by
  induction polls generalizing s with
  | zero => exact within_pure trivial
  | succ polls ih =>
      unfold blockLoop
      refine within_bind (within_tick ?_)
      refine within_ite (fun _ => ?_) fun _ => within_pure trivial
      refine within_seq (hpoll _) fun condition s' _ => ?_
      cases condition with
      | err => exact within_pure trivial
      | holds => exact within_pure trivial
      | fails => exact within_bind (within_tick (ih _))
      | errType => exact within_bind (within_tick (ih _))

theorem procRuntimeBlock_within (hown : ∀ node param, h.Owns node param → Own node param)
    (ins : ProcInstruction) (s : P) :
    Within (Access.Sure Own) (Access.Reads Own ins.node) (fun _ _ => True)
      (h.procRuntimeBlock ins) s := by
  unfold procRuntimeBlock
  cases ins.instruction with
  | block a op b =>
      refine within_bind (within_tick ?_)
      refine within_seq (blockLoop_within (fun s => Host.procRuntimeIfelse_within hown
        ⟨ins.node, .ifelse a op b⟩ s) _ h.maxPolls _) ?_
      rintro (_ | ret) s' -
      · exact within_bind (within_tick (within_pure trivial))
      · exact within_pure trivial
  | _ => exact within_pure trivial

theorem touches_of_sure (hown : ∀ node param, h.Owns node param → Own node param)
    {ins : ProcInstruction} {s : P} (hsure : ∀ a ∈ h.accesses ins s, a.Sure Own) :
    ∀ a ∈ h.accesses ins s, Touches Own ins a := by
  unfold accesses at hsure ⊢
  unfold Touches
  cases hins : ins.instruction with
  | block a op b =>
      rw [hins] at hsure
      exact (procRuntimeBlock_within hown ins s hsure).1
  | ifelse a op b =>
      rw [hins] at hsure
      exact (Host.procRuntimeIfelse_within hown ins s hsure).1
  | set param value =>
      rw [hins] at hsure
      exact (Host.procRuntimeSet_within hown ins s hsure).1
  | unop param op result =>
      rw [hins] at hsure
      exact (Host.procRuntimeUnop_within hown hins s hsure).1
  | binop a op b result =>
      rw [hins] at hsure
      exact (Host.procRuntimeBinop_within hown ins s hsure).1
  | call => simp
  | noop => simp
  | unknown => simp

/-- A `binop` that does not come to its write. -/
theorem reads_of_sure (hown : ∀ node param, h.Owns node param → Own node param)
    {ins : ProcInstruction} {s : P} {a b result : CStr} {op : UInt32}
    (hins : ins.instruction = .binop a op b result)
    (hsure : ∀ a ∈ h.accesses ins s, a.Sure Own) (hw : h.binopWrites ins s = false) :
    ∀ a ∈ h.accesses ins s, a.Reads Own ins.node := by
  simp only [accesses, hins] at hsure ⊢
  exact (Host.procRuntimeBinop_within_reads hown hw hsure).1

end RuntimeHost

end CspProc
