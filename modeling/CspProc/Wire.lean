import CspProc.Pack

/-! # The wire format of a procedure

The format itself, as a codec of instructions: a 16-bit node, a type byte and
the operands that the type has. The three passes of `proc_pack.c` are then
related to it once each:

* `addInstructionSize_eq` — the size pass adds the length of the encoding;
* `packInstruction_eq` — the write pass writes the encoding;
* `unpackInstruction_eq` — the read pass decodes at its offset.

An instruction of unknown type has an encoding too, its node and type byte:
it is what both switches have processed when they reach `default:`.
-/

namespace CspProc

namespace Wire

/-! ## Fields -/

/-- `uint16_t node`. -/
def node : Codec UInt16 :=
  (Codec.uint 2).iso UInt16.ofNat UInt16.toNat (by
    intro v hv
    have hv : v < 65536 := hv
    simp only [UInt16.toNat_ofNat']
    omega)

/-- `uint8_t procedure_slot`. -/
def slot : Codec UInt8 :=
  (Codec.uint 1).iso UInt8.ofNat UInt8.toNat (by
    intro v hv
    have hv : v < 256 := by simpa [Codec.uint] using hv
    simp only [UInt8.toNat_ofNat']
    omega)

/-- An operator in an enum object of `n` bytes. -/
def op (cfg : Config) : Codec UInt32 :=
  (Codec.uint cfg.sizeofEnum).iso UInt32.ofNat UInt32.toNat (by
    intro v hv
    have hv : v < 256 ^ cfg.sizeofEnum := hv
    have hle : 256 ^ cfg.sizeofEnum ≤ 256 ^ 4 := Nat.pow_le_pow_right (by omega) cfg.enum_le
    simp only [UInt32.toNat_ofNat']
    omega)

/-! ## Instructions -/

/-- The operands of an instruction, by the value of its type byte. -/
def operands (cfg : Config) : Nat → Codec Instruction
  | 0 =>
      (Codec.cstr.seq ((op cfg).seq Codec.cstr)).iso
        (fun x => .block x.1 x.2.1 x.2.2)
        (fun | .block a o b => (a, o, b) | _ => (CStr.nil, 0, CStr.nil))
        (fun _ _ => rfl)
  | 1 =>
      (Codec.cstr.seq ((op cfg).seq Codec.cstr)).iso
        (fun x => .ifelse x.1 x.2.1 x.2.2)
        (fun | .ifelse a o b => (a, o, b) | _ => (CStr.nil, 0, CStr.nil))
        (fun _ _ => rfl)
  | 2 =>
      (Codec.cstr.seq Codec.cstr).iso
        (fun x => .set x.1 x.2)
        (fun | .set p v => (p, v) | _ => (CStr.nil, CStr.nil))
        (fun _ _ => rfl)
  | 3 =>
      (Codec.cstr.seq ((op cfg).seq Codec.cstr)).iso
        (fun x => .unop x.1 x.2.1 x.2.2)
        (fun | .unop p o r => (p, o, r) | _ => (CStr.nil, 0, CStr.nil))
        (fun _ _ => rfl)
  | 4 =>
      (Codec.cstr.seq ((op cfg).seq (Codec.cstr.seq Codec.cstr))).iso
        (fun x => .binop x.1 x.2.1 x.2.2.1 x.2.2.2)
        (fun
          | .binop a o b r => (a, o, b, r)
          | _ => (CStr.nil, 0, CStr.nil, CStr.nil))
        (fun _ _ => rfl)
  | 5 =>
      slot.iso .call (fun | .call s => s | _ => 0) (fun _ _ => rfl)
  | 6 => Codec.unit.iso (fun _ => .noop) (fun _ => ()) (fun _ _ => rfl)
  | t =>
      if h : 7 ≤ (UInt32.ofNat t).toNat then
        Codec.unit.iso (fun _ => .unknown (UInt32.ofNat t) h) (fun _ => ()) (fun _ _ => rfl)
      else Codec.empty

/-- The operands' format knows its type byte. -/
theorem operands_type (cfg : Config) (t : Nat) (ins : Instruction) (ht : (Codec.uint 1).Valid t)
    (hv : (operands cfg t).Valid ins) : ins.type.toNat = t := by
  have ht : t < 256 := by simpa [Codec.uint] using ht
  unfold operands at hv
  split at hv
  all_goals try (rw [← hv.2]; rfl)
  split at hv
  · rw [← hv.2]
    show (UInt32.ofNat t).toNat = t
    simp only [UInt32.toNat_ofNat']
    omega
  · exact hv.elim

/-- A type byte and the operands. -/
def instruction (cfg : Config) : Codec Instruction :=
  (Codec.uint 1).tagged (fun ins => ins.type.toNat) (operands cfg) (operands_type cfg)

/-- A node, a type byte and the operands. -/
def procInstruction (cfg : Config) : Codec ProcInstruction :=
  (node.seq (instruction cfg)).iso
    (fun x => ⟨x.1, x.2⟩) (fun ins => (ins.node, ins.instruction)) (fun _ _ => rfl)

/-- The operands' bytes, one instruction shape at a time. -/
def operandBytes (cfg : Config) : Instruction → List UInt8
  | .block paramA o paramB | .ifelse paramA o paramB =>
      paramA.withNul ++ (leBytes cfg.sizeofEnum o.toNat ++ paramB.withNul)
  | .set param value => param.withNul ++ value.withNul
  | .unop param o result => param.withNul ++ (leBytes cfg.sizeofEnum o.toNat ++ result.withNul)
  | .binop paramA o paramB result =>
      paramA.withNul ++ (leBytes cfg.sizeofEnum o.toNat ++ (paramB.withNul ++ result.withNul))
  | .call s => [s]
  | .noop | .unknown .. => []

/-- The operands of an unknown type: none. -/
theorem operands_unknown (cfg : Config) (t : UInt32) (h : 7 ≤ t.toNat) :
    operands cfg t.toNat =
      Codec.unit.iso (fun _ => .unknown (UInt32.ofNat t.toNat) (by simpa using h))
        (fun _ => ()) (fun _ _ => rfl) := by
  unfold operands
  split
  all_goals try omega
  rw [dif_pos (by simpa using h)]

theorem operands_encode (cfg : Config) (ins : Instruction) :
    (operands cfg ins.type.toNat).encode ins = operandBytes cfg ins := by
  cases ins with
  | call s => simp [operands, Instruction.type, operandBytes, Codec.iso, slot, Codec.uint, leBytes]
  | unknown t h =>
      show (operands cfg t.toNat).encode _ = []
      rw [operands_unknown cfg t h]
      rfl
  | _ => rfl

theorem op_valid (cfg : Config) (o : UInt32) :
    (op cfg).Valid o ↔ o.toNat < 256 ^ cfg.sizeofEnum :=
  ⟨fun h => h.1, fun h => ⟨h, by simp⟩⟩

theorem operands_valid (cfg : Config) (ins : Instruction) :
    (operands cfg ins.type.toNat).Valid ins ↔ ins.OpFits cfg.sizeofEnum := by
  cases ins with
  | unknown t h =>
      show (operands cfg t.toNat).Valid _ ↔ True
      rw [operands_unknown cfg t h]
      simp [Codec.iso, Codec.unit]
  | call s =>
      show (slot.Valid s ∧ _) ↔ True
      simp [slot, Codec.iso, Codec.uint, s.toNat_lt]
  | _ =>
      simp [operands, Codec.iso, Codec.seq, Codec.cstr, Codec.unit, op_valid, Instruction.OpFits,
        Instruction.type]

/-- The encoding of an instruction, written out. -/
theorem encode_eq (cfg : Config) (ins : ProcInstruction) :
    (procInstruction cfg).encode ins =
      leBytes 2 ins.node.toNat ++ (ins.instruction.type.toUInt8 ::
        operandBytes cfg ins.instruction) := by
  show leBytes 2 ins.node.toNat ++ (leBytes 1 ins.instruction.type.toNat ++
    (operands cfg ins.instruction.type.toNat).encode ins.instruction) = _
  rw [operands_encode]
  have hbyte : UInt8.ofNat ins.instruction.type.toNat = ins.instruction.type.toUInt8 := by
    apply UInt8.toNat_inj.mp
    simp
  simp [leBytes, hbyte]

/-- The values the format holds: an operator that its enum can hold, and a
type that fits the type byte. -/
theorem valid_iff (cfg : Config) (ins : ProcInstruction) :
    (procInstruction cfg).Valid ins ↔
      ins.instruction.OpFits cfg.sizeofEnum ∧ ins.instruction.type.toNat < 256 := by
  have hn : node.Valid ins.node := ⟨ins.node.toNat_lt, by simp⟩
  have htag : (Codec.uint 1).Valid ins.instruction.type.toNat ↔
      ins.instruction.type.toNat < 256 := by simp [Codec.uint]
  rw [← operands_valid, ← htag]
  constructor
  · rintro ⟨⟨-, ht, ho⟩, -⟩
    exact ⟨ho, ht⟩
  · rintro ⟨ho, ht⟩
    exact ⟨⟨hn, ht, ho⟩, rfl⟩

/-! ## The size pass -/

theorem addSize_cInt (total : Int) (n : Nat) : addSize (cInt total) n = cInt (total + n) :=
  cInt_add_cInt total n

/-- The size pass adds the length of the encoding, in `int` arithmetic. -/
theorem addInstructionSize_eq (cfg : Config) (total : Int) (ins : ProcInstruction)
    (hk : ins.instruction.isKnown = true) :
    addInstructionSize cfg total ins =
      some (cInt (total + ((procInstruction cfg).encode ins).length)) := by
  rcases ins with ⟨n, body⟩
  have hfirst : addSize (addSize total 2) 1 = cInt (total + 3) := by
    rw [show addSize total 2 = cInt (total + 2) from rfl, addSize_cInt]
    congr 1
    omega
  rw [encode_eq]
  cases body with
  | unknown t h => cases hk
  | _ =>
      simp only [addInstructionSize, hfirst, addSize_cInt, operandBytes, List.length_append,
        leBytes_length, List.length_cons, CStr.withNul_length, List.length_nil]
      refine congrArg (fun x : Int => some (cInt x)) ?_
      push_cast
      omega

/-! ## The write pass -/

/-- Two `memcpy` in a row write one piece after the other. -/
theorem put_bind_put {α : Type} (s : PackState) (as bs : List UInt8)
    (f : PackState → Option α) :
    ((s.put as).bind fun s => (s.put bs).bind f) = (s.put (as ++ bs)).bind f := by
  unfold PackState.put
  rw [← ByteBuf.write_append]
  cases ByteBuf.write s.data s.offset as with
  | none => rfl
  | some d =>
      simp only [Option.map_some, Option.bind_some, Option.bind_map, List.length_append,
        Nat.add_assoc]

/-- The write pass writes the encoding; what follows in the loop depends on
whether the type is known. -/
theorem packInstruction_eq (cfg : Config) (s : PackState) (ins : ProcInstruction) :
    packInstruction cfg s ins =
      (s.put ((procInstruction cfg).encode ins)).map fun s =>
        (if ins.instruction.isKnown = true then 0 else -1, s) := by
  rcases ins with ⟨n, body⟩
  rw [encode_eq]
  cases body with
  | _ =>
      simp only [packInstruction, bind, pure, put_bind_put, operandBytes, Instruction.type]
      rw [Option.map_eq_bind]
      rfl

/-! ## The read pass -/

theorem takeUInt_eq (data : List UInt8) (off n : Nat) (hn : 0 < n) :
    takeUInt data off n = (Codec.uint n).decodeAt data off :=
  (Codec.decodeAt_uint n hn data off).symm

theorem takeStr_eq (data : List UInt8) (off : Nat) :
    takeStr data off = Codec.cstr.decodeAt data off :=
  (Codec.decodeAt_cstr data off).symm

theorem takeOp_eq (cfg : Config) (data : List UInt8) (off : Nat) :
    takeOp cfg data off = (op cfg).decodeAt data off := by
  unfold takeOp op
  rw [takeUInt_eq data off cfg.sizeofEnum cfg.enum_pos, Codec.decodeAt_iso]

theorem decodeAt_node (data : List UInt8) (off : Nat) :
    node.decodeAt data off = (takeUInt data off 2).map fun r => (UInt16.ofNat r.1, r.2) := by
  rw [takeUInt_eq data off 2 (by omega)]
  exact Codec.decodeAt_iso ..

theorem decodeAt_slot (data : List UInt8) (off : Nat) :
    slot.decodeAt data off = (takeUInt data off 1).map fun r => (UInt8.ofNat r.1, r.2) := by
  rw [takeUInt_eq data off 1 (by omega)]
  exact Codec.decodeAt_iso ..

theorem decodeAt_instruction (cfg : Config) (data : List UInt8) (off : Nat) :
    (instruction cfg).decodeAt data off =
      (takeUInt data off 1).bind fun t => (operands cfg t.1).decodeAt data t.2 := by
  rw [takeUInt_eq data off 1 (by omega)]
  exact Codec.decodeAt_tagged ..

theorem decodeAt_procInstruction (cfg : Config) (data : List UInt8) (off : Nat) :
    (procInstruction cfg).decodeAt data off =
      (node.decodeAt data off).bind fun n =>
        ((instruction cfg).decodeAt data n.2).map fun q => (⟨n.1, q.1⟩, q.2) := by
  have h := Codec.decodeAt_iso (node.seq (instruction cfg))
    (fun x => (⟨x.1, x.2⟩ : ProcInstruction)) (fun ins => (ins.node, ins.instruction))
    (fun _ _ => rfl) data off
  rw [Codec.decodeAt_seq] at h
  simp only [Option.map_bind] at h
  refine h.trans ?_
  congr 1
  funext n
  simp [Function.comp_def]

/-- The read pass decodes the format at its offset. -/
theorem unpackInstruction_eq (cfg : Config) (data : List UInt8) (off : Nat) :
    unpackInstruction cfg data off = (procInstruction cfg).decodeAt data off := by
  rw [decodeAt_procInstruction, decodeAt_node]
  unfold unpackInstruction
  cases takeUInt data off 2 with
  | none => rfl
  | some r =>
      rcases r with ⟨n, off⟩
      simp only [Option.bind_eq_bind, Option.bind_some, Option.map_some, decodeAt_instruction]
      cases takeUInt data off 1 with
      | none => rfl
      | some r =>
          rcases r with ⟨t, off⟩
          simp only [Option.bind_some]
          unfold operands
          split
          all_goals
            simp only [Codec.decodeAt_iso, Codec.decodeAt_seq, ← takeStr_eq, ← takeOp_eq,
              decodeAt_slot, pure, Option.map_eq_bind, Option.bind_assoc]
          all_goals try rfl
          -- a type byte that is none of the seven
          split
          · rw [Codec.decodeAt_iso]
            rfl
          · rfl

/-! ## Whole procedures -/

/-- The encodings of some instructions, one after the other. -/
def instructionBytes (cfg : Config) (l : List ProcInstruction) : List UInt8 :=
  l.flatMap (procInstruction cfg).encode

/-- The encoding of a procedure: its count and its instructions. -/
def procBytes (cfg : Config) (p : Proc) : List UInt8 :=
  p.instructionCount :: instructionBytes cfg p.instructions

/-- How a decoder that has `n` instructions to read can stop: with all of
them, of known types (`0`), or at the first unknown type (`-1`). -/
inductive Stops (n : Nat) : Int → List ProcInstruction → Prop
  | all {l : List ProcInstruction} (hlen : l.length = n)
      (hknown : ∀ ins ∈ l, ins.instruction.isKnown = true) : Stops n 0 l
  | unknown {l : List ProcInstruction} {ins : ProcInstruction} (hlen : l.length < n)
      (hknown : ∀ ins ∈ l, ins.instruction.isKnown = true)
      (hun : ins.instruction.isKnown = false) : Stops n (-1) (l ++ [ins])

theorem Stops.length_le {n : Nat} {ret : Int} {l : List ProcInstruction} (h : Stops n ret l) :
    l.length ≤ n := by
  cases h with
  | all hlen hknown => omega
  | unknown hlen hknown hun =>
      rw [List.length_append, List.length_singleton]
      omega

theorem Stops.cons {n : Nat} {ret : Int} {l : List ProcInstruction} {ins : ProcInstruction}
    (hk : ins.instruction.isKnown = true) (h : Stops n ret l) : Stops (n + 1) ret (ins :: l) := by
  cases h with
  | all hlen hknown =>
      refine .all (by simp [hlen]) ?_
      simp only [List.mem_cons, forall_eq_or_imp]
      exact ⟨hk, hknown⟩
  | unknown hlen hknown hun =>
      rw [← List.cons_append]
      refine .unknown (by simp only [List.length_cons]; omega) ?_ hun
      simp only [List.mem_cons, forall_eq_or_imp]
      exact ⟨hk, hknown⟩

@[simp] theorem instructionBytes_cons (cfg : Config) (ins : ProcInstruction)
    (l : List ProcInstruction) :
    instructionBytes cfg (ins :: l) = (procInstruction cfg).encode ins ++ instructionBytes cfg l :=
  rfl

/-- The first instruction stored decides whether the decoder went on. -/
theorem Stops.cons_iff {n : Nat} {ret : Int} {l : List ProcInstruction} {ins : ProcInstruction} :
    Stops (n + 1) ret (ins :: l) ↔
      (ins.instruction.isKnown = true ∧ Stops n ret l) ∨
      (ins.instruction.isKnown = false ∧ ret = -1 ∧ l = []) := by
  constructor
  · intro h
    generalize hl : ins :: l = m at h
    cases h with
    | all hlen hknown =>
        subst hl
        simp only [List.mem_cons, forall_eq_or_imp] at hknown
        exact .inl ⟨hknown.1, .all (by simpa using hlen) hknown.2⟩
    | @unknown l' last hlen hknown hun =>
        cases l' with
        | nil =>
            -- the first instruction is the one of unknown type
            simp only [List.nil_append, List.cons.injEq] at hl
            rcases hl with ⟨rfl, rfl⟩
            exact .inr ⟨hun, rfl, rfl⟩
        | cons first l' =>
            simp only [List.cons_append, List.cons.injEq] at hl
            rcases hl with ⟨rfl, rfl⟩
            simp only [List.mem_cons, forall_eq_or_imp] at hknown
            exact .inl ⟨hknown.1, .unknown (by simpa using hlen) hknown.2 hun⟩
  · rintro (⟨hk, h⟩ | ⟨hun, rfl, rfl⟩)
    · exact h.cons hk
    · exact .unknown (l := []) (by simp) (by simp) hun

/-- Nothing is stored only when nothing was to be read. -/
theorem Stops.nil_iff {n : Nat} {ret : Int} : Stops n ret [] ↔ n = 0 ∧ ret = 0 := by
  constructor
  · intro h
    generalize hl : ([] : List ProcInstruction) = m at h
    cases h with
    | all hlen hknown =>
      subst hl
      exact ⟨hlen.symm, rfl⟩
    | unknown hlen hknown hun => simp at hl
  · rintro ⟨rfl, rfl⟩
    exact .all rfl (by simp)

/-- What the decoder's loop returns, read off the bytes at its offset: the
encodings of the instructions it stored stand there, and it moved past them. -/
theorem unpackInstructions_iff (cfg : Config) (data : List UInt8) (n off off' : Nat) (ret : Int)
    (l : List ProcInstruction) :
    unpackInstructions cfg data n off = some (ret, l, off') ↔
      Stops n ret l ∧ (∀ ins ∈ l, (procInstruction cfg).Valid ins) ∧
      instructionBytes cfg l <+: data.drop off ∧
      off' = off + (instructionBytes cfg l).length := by
  induction n generalizing off off' ret l with
  | zero =>
      cases l with
      | nil => simp [unpackInstructions, Stops.nil_iff, instructionBytes, eq_comm]
      | cons ins l =>
          constructor
          · simp [unpackInstructions]
          · rintro ⟨h, -⟩
            have hle := h.length_le
            simp at hle
  | succ n ih =>
      simp only [unpackInstructions, unpackInstruction_eq, Option.bind_eq_bind,
        Option.bind_eq_some_iff, Prod.exists, Codec.decodeAt_eq_some_iff]
      cases l with
      | nil =>
          -- an iteration always stores its instruction
          constructor
          · rintro ⟨ins, off1, -, h⟩
            split at h
            · simp only [Option.bind_eq_some_iff] at h
              rcases h with ⟨r, -, hr⟩
              simp [pure] at hr
            · simp [pure] at h
          · rintro ⟨h, -⟩
            simp [Stops.nil_iff] at h
      | cons ins l =>
          rw [Stops.cons_iff, instructionBytes_cons, ByteBuf.append_prefix_drop_iff]
          simp only [List.mem_cons, forall_eq_or_imp, List.length_append]
          constructor
          · rintro ⟨ins', off1, ⟨hv, hpre, rfl⟩, h⟩
            split at h
            · -- a known type, and the rest of the loop
              rename_i hk
              simp only [Option.bind_eq_some_iff, Prod.exists, ih] at h
              rcases h with ⟨ret', l', off2, ⟨hs, hv', hpre', rfl⟩, hr⟩
              simp only [pure, Option.some.injEq, Prod.mk.injEq, List.cons.injEq] at hr
              rcases hr with ⟨rfl, ⟨rfl, rfl⟩, rfl⟩
              exact ⟨.inl ⟨hk, hs⟩, ⟨hv, hv'⟩, ⟨hpre, hpre'⟩, by omega⟩
            · -- an unknown type, which is the last instruction stored
              rename_i hk
              simp only [pure, Option.some.injEq, Prod.mk.injEq, List.cons.injEq] at h
              rcases h with ⟨rfl, ⟨rfl, rfl⟩, rfl⟩
              exact ⟨.inr ⟨by simpa using hk, rfl, rfl⟩, ⟨hv, by simp⟩,
                ⟨hpre, by simp [instructionBytes]⟩, by simp [instructionBytes]⟩
          · rintro ⟨hs, ⟨hv, hv'⟩, ⟨hpre, hpre'⟩, rfl⟩
            refine ⟨ins, _, ⟨hv, hpre, rfl⟩, ?_⟩
            rcases hs with ⟨hk, hs⟩ | ⟨hun, rfl, rfl⟩
            · rw [if_pos hk]
              simp only [Option.bind_eq_some_iff, Prod.exists, ih]
              exact ⟨ret, l, _, ⟨hs, hv', hpre', rfl⟩, by simp [pure, Nat.add_assoc]⟩
            · simp [hun, pure, instructionBytes]

/-- What the decoder returns, read off the packet's data: the count, and the
encodings of what it stored. -/
theorem unpackData_iff (cfg : Config) (data : List UInt8) (u : Unpacked) :
    unpackData cfg data = some u ↔ ∃ count : UInt8,
      Stops count.toNat u.ret u.procedure.instructions ∧
      (∀ ins ∈ u.procedure.instructions, (procInstruction cfg).Valid ins) ∧
      count :: instructionBytes cfg u.procedure.instructions <+: data.drop 2 ∧
      u.offset = 3 + (instructionBytes cfg u.procedure.instructions).length := by
  have hcount : ∀ (count : UInt8) (bs : List UInt8), count :: bs <+: data.drop 2 ↔
      (Codec.uint 1).encode count.toNat <+: data.drop 2 ∧ bs <+: data.drop 3 := by
    intro count bs
    have henc : (Codec.uint 1).encode count.toNat = [count] := by simp [Codec.uint, leBytes]
    have happ := ByteBuf.append_prefix_drop_iff [count] bs data 2
    rw [henc]
    simpa using happ
  unfold unpackData
  simp only [takeUInt_eq data 2 1 (by omega), Option.bind_eq_bind, Option.bind_eq_some_iff,
    Prod.exists, Codec.decodeAt_eq_some_iff, hcount]
  constructor
  · rintro ⟨n, off, ⟨hn, hpre, rfl⟩, ret, l, off', hl, h⟩
    have hlt : n < 256 := by simpa [Codec.uint] using hn
    have hback : (UInt8.ofNat n).toNat = n := by
      simp only [UInt8.toNat_ofNat']
      omega
    simp only [Codec.uint, leBytes_length, unpackInstructions_iff] at hl
    split at h
    · simp only [pure, Option.some.injEq] at h
      subst h
      rcases hl with ⟨hs, hv, hpre', rfl⟩
      exact ⟨UInt8.ofNat n, by rwa [hback], hv, ⟨by rwa [hback], hpre'⟩, rfl⟩
    · cases h
  · rintro ⟨count, hs, hv, ⟨hpre, hpre'⟩, hoff⟩
    refine ⟨count.toNat, _, ⟨?_, hpre, rfl⟩, u.ret, u.procedure.instructions, u.offset, ?_, ?_⟩
    · simpa [Codec.uint] using count.toNat_lt
    · rw [unpackInstructions_iff]
      simp only [Codec.uint, leBytes_length]
      exact ⟨hs, hv, hpre', hoff⟩
    · rw [dif_pos u.procedure.length_le]
      rfl

/-! ## The encoder's loops -/

/-- The instructions up to and with the first one of unknown type. -/
def processed : List ProcInstruction → List ProcInstruction
  | [] => []
  | ins :: l => if ins.instruction.isKnown then ins :: processed l else [ins]

/-- What a pass over the instructions returns. -/
def passRet (l : List ProcInstruction) : Int :=
  if ∀ ins ∈ l, ins.instruction.isKnown = true then 0 else -1

theorem processed_of_known {l : List ProcInstruction}
    (hk : ∀ ins ∈ l, ins.instruction.isKnown = true) : processed l = l := by
  induction l with
  | nil => rfl
  | cons ins l ih =>
      simp only [List.mem_cons, forall_eq_or_imp] at hk
      simp [processed, hk.1, ih hk.2]

/-- The size pass over known types gives the length of their encodings, as an
`int` holds it; an unknown type ends it. -/
theorem foldlM_addInstructionSize (cfg : Config) (l : List ProcInstruction) (total : Int) :
    l.foldlM (addInstructionSize cfg) (cInt total) =
      if ∀ ins ∈ l, ins.instruction.isKnown = true then
        some (cInt (total + (instructionBytes cfg l).length))
      else none := by
  induction l generalizing total with
  | nil => simp [instructionBytes]
  | cons ins l ih =>
      rw [List.foldlM_cons]
      by_cases hk : ins.instruction.isKnown = true
      · rw [addInstructionSize_eq cfg _ ins hk, cInt_add_cInt]
        simp only [Option.bind_eq_bind, Option.bind_some, ih, List.mem_cons, forall_eq_or_imp, hk,
          true_and, instructionBytes_cons, List.length_append]
        push_cast
        rw [add_assoc]
      · -- `default:` ends the pass
        have hnone : addInstructionSize cfg (cInt total) ins = none := by
          rcases ins with ⟨n, body⟩
          cases body with
          | unknown t h => rfl
          | _ => exact absurd rfl hk
        simp [hnone, hk]

theorem calcProcSize_eq (cfg : Config) (p : Proc) :
    calcProcSize cfg p =
      if ∀ ins ∈ p.instructions, ins.instruction.isKnown = true then
        cInt (procBytes cfg p).length
      else -1 := by
  have h0 : addSize 0 1 = cInt 1 := rfl
  unfold calcProcSize
  rw [h0, foldlM_addInstructionSize]
  by_cases hk : ∀ ins ∈ p.instructions, ins.instruction.isKnown = true
  · simp only [if_pos hk, procBytes, List.length_cons]
    congr 1
    push_cast
    omega
  · simp only [if_neg hk]

/-- The write pass writes the encodings of the instructions it processes. -/
theorem put_bind_packInstructions (cfg : Config) (l : List ProcInstruction) (s : PackState)
    (bs : List UInt8) :
    ((s.put bs).bind fun s => packInstructions cfg s l) =
      (s.put (bs ++ instructionBytes cfg (processed l))).map fun s => (passRet l, s) := by
  induction l generalizing bs with
  | nil => simp [packInstructions, processed, instructionBytes, passRet, Option.map_eq_bind]
  | cons ins l ih =>
      simp only [packInstructions, packInstruction_eq, Option.map_eq_bind, Option.bind_eq_bind,
        Option.bind_assoc, Option.bind_some, Function.comp_apply, put_bind_put]
      by_cases hk : ins.instruction.isKnown = true
      · -- the write is joined to those before it
        have hret : passRet (ins :: l) = passRet l := by simp [passRet, hk]
        simp only [hk, if_true, processed, instructionBytes_cons, ← List.append_assoc, hret]
        simpa [Option.map_eq_bind, Function.comp_def]
          using ih (bs ++ (procInstruction cfg).encode ins)
      · have hret : passRet (ins :: l) = -1 := by simp [passRet, hk]
        simp [hk, processed, instructionBytes, hret, pure]

/-- The encoder, with its loop replaced by the one write it amounts to. -/
theorem packProcIntoCspPacket_eq (cfg : Config) (p : Proc) (packet : Packet cfg) :
    packProcIntoCspPacket cfg p packet =
      if 2 ^ 31 ≤ calcProcSize cfg p + 2 then none
      else if (cfg.cspBufferSize : Int) < calcProcSize cfg p + 2 then some (-1, packet)
      else
        (PackState.put ⟨packet.data, 2⟩
          (p.instructionCount :: instructionBytes cfg (processed p.instructions))).bind fun s =>
          (packet.withData s.data).bind fun packet =>
            if passRet p.instructions = 0 then
              if h : (calcProcSize cfg p + 2).toNat ≤ cfg.cspBufferSize then
                some (0, packet.setLength (calcProcSize cfg p + 2).toNat h)
              else none
            else some (passRet p.instructions, packet) := by
  have hloop := put_bind_packInstructions cfg p.instructions ⟨packet.data, 2⟩ [p.instructionCount]
  unfold packProcIntoCspPacket
  by_cases hov : 2 ^ 31 ≤ calcProcSize cfg p + 2
  · rw [if_pos hov, if_pos hov]
    rfl
  rw [if_neg hov, if_neg hov]
  by_cases hbig : (cfg.cspBufferSize : Int) < calcProcSize cfg p + 2
  · rw [if_pos hbig, if_pos hbig]
    rfl
  rw [if_neg hbig, if_neg hbig]
  simp only [Option.bind_eq_bind, pure]
  rw [← Option.bind_assoc, hloop, Option.map_eq_bind, Option.bind_assoc]
  rfl

end Wire

end CspProc
