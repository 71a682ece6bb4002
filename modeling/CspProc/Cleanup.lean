import CspProc.Client
import CspProc.Ownership

/-! # Cleaning up after a failed transfer

A `proc_t` that has just been allocated is filled by the decoder, in the server
for a push and in the client, reply by reply, for a pull. Its fields are not
initialised: what has been written of it is recorded, and `free_proc` has no
result if it reads anything else.

`transfer_cleaned_iff` says after which transfers `free_proc` frees what the
decoder has allocated, and nothing else.
-/

namespace CspProc

variable {cfg : Config}

/-! ## A fresh `proc_t` -/

/-- A `proc_t` of which the first instructions have been written, and the count
perhaps. -/
structure FreshProc where
  instructions : List StoredProcInstruction
  instructionCount : Option UInt8

namespace FreshProc

/-- After `proc_malloc`. -/
def uninitialised : FreshProc := ⟨[], none⟩

/-- `free_proc` of the procedure in a block. -/
def free (p : FreshProc) (heap : Heap Block) (block : Ptr) : Option (Heap Block) := do
  let instructionCount ← p.instructionCount
  freeProc heap block ⟨p.instructions, instructionCount⟩

end FreshProc

/-- `unpack_proc_from_csp_packet` into a `proc_t`, of which the instructions that
are not overwritten stay. -/
def unpackInto (alloc : Nat → Bool) (packet : Packet cfg) (procedure : FreshProc)
    (heap : Heap Block) : Option (Int × FreshProc × Heap Block) := do
  let (ret, unpacked, heap) ← unpackStored alloc heap packet
  let rest := procedure.instructions.drop unpacked.instructions.length
  return (ret, ⟨unpacked.instructions ++ rest, some unpacked.instructionCount⟩, heap)

/-! ## Transfers -/

/-- `unpack_proc_callback`. The argument is `none` when the behaviour is no longer
defined. -/
def unpackProcCallback (alloc : Nat → Bool) (packet : Packet cfg)
    (arg : Option (FreshProc × Heap Block)) : Int × Option (FreshProc × Heap Block) :=
  match arg.bind fun (procedure, heap) => unpackInto alloc packet procedure heap with
  | some (ret, procedure, heap) => (ret, some (procedure, heap))
  | none => (-1, none)

/-- `proc_pull_request`, given whether there is a buffer and a connection, and the
packets that the connection delivers. -/
def procPullRequest (freed : Packet cfg → Packet cfg) (alloc : Nat → Bool)
    (buffer connected : Bool) (timeout : Int) (replies : List (Packet cfg))
    (procedure : FreshProc) (heap : Heap Block) : Int × Option (FreshProc × Heap Block) :=
  if buffer = false then (-2, some (procedure, heap))
  else
    procTransaction freed connected timeout (some (unpackProcCallback alloc)) replies
      (some (procedure, heap))

/-- What fills a fresh `proc_t`: the decoder for the packet of a push, or a
pull. -/
inductive Transfer (cfg : Config) where
  | push (packet : Packet cfg)
  | pull (buffer connected : Bool) (timeout : Int) (replies : List (Packet cfg))

namespace Transfer

/-- The transfer into a fresh `proc_t`: the return value, and what has become of
the `proc_t` and the heap. -/
def run (freed : Packet cfg → Packet cfg) (alloc : Nat → Bool) (heap : Heap Block) :
    Transfer cfg → Option (Int × FreshProc × Heap Block)
  | push packet => unpackInto alloc packet .uninitialised heap
  | pull buffer connected timeout replies =>
      let (ret, arg) := procPullRequest freed alloc buffer connected timeout replies
        .uninitialised heap
      arg.map fun (procedure, heap) => (ret, procedure, heap)

end Transfer

/-- After a failed transfer `free_proc` reads nothing but what has been written,
and leaves the blocks that were live before, as they were. -/
def CleanedUp (before : Heap Block) (live : List Nat) (block : Nat) (procedure : FreshProc)
    (heap : Heap Block) : Prop :=
  ∃ heap', procedure.free heap (some block) = some heap' ∧ heap'.Holds live ∧
    ∀ b ∈ live, heap'.blocks b = before.blocks b

/-! ## What has been decoded -/

/-- The instructions that the decoder writes for a packet. -/
def decodedInstructions (packet : Packet cfg) : List ProcInstruction :=
  ((unpackProcFromCspPacket cfg packet).map fun u => u.procedure.instructions).getD []

/-- The decoder returns 0 for a packet. -/
def decodes (packet : Packet cfg) : Bool :=
  (unpackProcFromCspPacket cfg packet).map (fun u => u.ret) = some 0

/-- The replies that the callback gets: those without the error flag, until the
decoder fails or a reply is the last one. -/
def decodedReplies : List (Packet cfg) → List (Packet cfg)
  | [] => []
  | packet :: packets =>
      let last := packet.byte 0 &&& procFlagEnd = procFlagEnd
      if packet.byte 0 &&& procFlagError = 0 then
        packet :: if decodes packet = false ∨ last then [] else decodedReplies packets
      else if last then [] else decodedReplies packets

/-- The packets that are decoded in a transfer. -/
def Transfer.decoded : Transfer cfg → List (Packet cfg)
  | push packet => [packet]
  | pull buffer connected timeout replies =>
      if buffer = true ∧ connected = true ∧ timeout ≠ -1 then decodedReplies replies else []

/-- The instructions of several packets, one after the other in one array: those
that are in it at the end, those that have been overwritten, and the heap. -/
structure Layout where
  written : List StoredProcInstruction
  overwritten : List StoredProcInstruction
  heap : Heap Block

/-- A further packet is decoded. -/
def Layout.add (alloc : Nat → Bool) (l : Layout) (packet : Packet cfg) : Layout :=
  let (new, heap) := storeInstructions alloc l.heap (decodedInstructions packet)
  ⟨new ++ l.written.drop new.length, l.overwritten ++ l.written.take new.length, heap⟩

/-- The array after the packets of a transfer. -/
def Transfer.layout (alloc : Nat → Bool) (heap : Heap Block) (t : Transfer cfg) : Layout :=
  t.decoded.foldl (Layout.add alloc) ⟨[], [], heap⟩

/-- The blocks that instructions refer to. -/
def referencesOf (instructions : List StoredProcInstruction) : List Nat :=
  (instructions.flatMap (·.instruction.pointers)).reduceOption

/-- A packet has been decoded, and the count of the last one tells of instructions
that have been written, and of all that have strings. -/
def Transfer.Covered (alloc : Nat → Bool) (heap : Heap Block) (t : Transfer cfg) : Prop :=
  ∃ packet, t.decoded.getLast? = some packet ∧
    (packet.byte 2).toNat ≤ (t.layout alloc heap).written.length ∧
    referencesOf ((t.layout alloc heap).overwritten ++
      (t.layout alloc heap).written.drop (packet.byte 2).toNat) = []

/-! ## The decoder and the array -/

section Layout

variable {alloc : Nat → Bool} {packet : Packet cfg} {procedure procedure' : FreshProc}
variable {heap heap' : Heap Block} {l : Layout} {live : List Nat} {ret : Int}

theorem referencesOf_append (xs ys : List StoredProcInstruction) :
    referencesOf (xs ++ ys) = referencesOf xs ++ referencesOf ys := by
  simp only [referencesOf, List.flatMap_append, List.reduceOption_append]

/-- What the decoder writes is what the array gets. -/
theorem unpackInto_layout (h : unpackInto alloc packet procedure l.heap =
      some (ret, procedure', heap')) (hl : procedure.instructions = l.written) :
    procedure'.instructions = (l.add alloc packet).written ∧
      procedure'.instructionCount = some (packet.byte 2) ∧ heap' = (l.add alloc packet).heap ∧
      decodes packet = decide (ret = 0) := by
  cases hu : unpackProcFromCspPacket cfg packet with
  | none =>
      rw [unpackInto, unpackStored, hu] at h
      cases h
  | some u =>
      simp only [unpackInto, unpackStored, hu, Option.map_some, Option.bind_eq_bind,
        Option.bind_some, pure, Option.some.injEq, Prod.mk.injEq] at h
      rcases h with ⟨rfl, rfl, rfl⟩
      simp only [Layout.add, decodedInstructions, decodes, hu, Option.map_some, Option.getD_some,
        hl, Option.some.injEq, and_self]

/-- The decoder does not lose a block: it is referred to, or has been. -/
theorem Layout.add_holds (h : l.heap.Holds (referencesOf (l.overwritten ++ l.written) ++ live))
    (packet : Packet cfg) :
    (l.add alloc packet).heap.Holds
        (referencesOf ((l.add alloc packet).overwritten ++ (l.add alloc packet).written) ++ live) ∧
      ∀ b ∈ live, (l.add alloc packet).heap.blocks b = l.heap.blocks b := by
  have hstore := storeInstructions_eq alloc l.heap (decodedInstructions packet)
  have hpushed := h.allocAll alloc
    (((decodedInstructions packet).flatMap (·.instruction.strings)).map .string)
  unfold Layout.add
  generalize storeInstructions alloc l.heap (decodedInstructions packet) = stored at hstore ⊢
  rcases stored with ⟨new, heap⟩
  rcases hstore with ⟨hpointers, rfl⟩
  rw [← hpointers] at hpushed
  constructor
  · -- the old instructions are overwritten, or behind the new ones
    refine hpushed.perm ?_
    show (referencesOf new ++ (referencesOf (l.overwritten ++ l.written) ++ live)).Perm _
    simp only [referencesOf_append, ← List.append_assoc]
    refine List.Perm.append_right live ?_
    have hsplit := congrArg referencesOf (List.take_append_drop new.length l.written)
    rw [referencesOf_append] at hsplit
    rw [← hsplit]
    simp only [List.append_assoc]
    refine (List.perm_append_comm_assoc ..).trans (List.Perm.append_left _ ?_)
    exact List.perm_append_comm_assoc ..
  · intro b hb
    have hlive : (l.heap.blocks b).isSome = true := (h.live b).mpr (List.mem_append_right _ hb)
    rcases Option.isSome_iff_exists.mp hlive with ⟨w, hw⟩
    rw [hw]
    exact Heap.blocks_allocAll _ _ hw

/-- Nor do several packets lose one. -/
theorem Layout.foldl_holds
    (h : l.heap.Holds (referencesOf (l.overwritten ++ l.written) ++ live))
    (packets : List (Packet cfg)) :
    (packets.foldl (Layout.add alloc) l).heap.Holds
        (referencesOf ((packets.foldl (Layout.add alloc) l).overwritten ++
          (packets.foldl (Layout.add alloc) l).written) ++ live) ∧
      ∀ b ∈ live, (packets.foldl (Layout.add alloc) l).heap.blocks b = l.heap.blocks b := by
  induction packets generalizing l with
  | nil => exact ⟨h, fun _ _ => rfl⟩
  | cons packet packets ih =>
      rcases Layout.add_holds h packet with ⟨hadd, hkept⟩
      rcases ih hadd with ⟨hrest, hkept'⟩
      exact ⟨hrest, fun b hb => (hkept' b hb).trans (hkept b hb)⟩

end Layout

/-! ## The replies to a pull -/

section Pull

variable {alloc : Nat → Bool} {freed : Packet cfg → Packet cfg} {procedure procedure' : FreshProc}
variable {heap heap' : Heap Block} {ret : Int}

/-- The count that is written last. -/
def lastCount (packets : List (Packet cfg)) (count : Option UInt8) : Option UInt8 :=
  match packets.getLast? with
  | some packet => some (packet.byte 2)
  | none => count

theorem lastCount_cons (packet : Packet cfg) (packets : List (Packet cfg))
    (count : Option UInt8) :
    lastCount (packet :: packets) count = lastCount packets (some (packet.byte 2)) := by
  cases packets with
  | nil => rfl
  | cons next packets => simp only [lastCount, List.getLast?_cons, Option.getD_some]

/-- The loop of `proc_transaction` decodes the replies that it is said to decode. -/
theorem transactionLoop_layout {packets : List (Packet cfg)} {l : Layout}
    (h : transactionLoop freed (some (unpackProcCallback alloc)) packets
      (some (procedure, l.heap)) = (ret, some (procedure', heap')))
    (hl : procedure.instructions = l.written) :
    procedure'.instructions = ((decodedReplies packets).foldl (Layout.add alloc) l).written ∧
      procedure'.instructionCount =
        lastCount (decodedReplies packets) procedure.instructionCount ∧
      heap' = ((decodedReplies packets).foldl (Layout.add alloc) l).heap := by
  induction packets generalizing procedure l with
  | nil =>
      rcases Prod.mk.inj h with ⟨-, h⟩
      rcases Prod.mk.inj (Option.some.inj h) with ⟨rfl, rfl⟩
      exact ⟨hl, rfl, rfl⟩
  | cons packet packets ih =>
      rw [transactionLoop] at h
      rw [decodedReplies]
      by_cases herror : packet.byte 0 &&& procFlagError = 0
      case neg =>
        -- a reply with the error flag is not decoded
        simp only [herror, if_false, Bool.false_eq_true] at h ⊢
        by_cases hlast : packet.byte 0 &&& procFlagEnd = procFlagEnd
        · simp only [hlast, if_true] at h ⊢
          rcases Prod.mk.inj h with ⟨-, h⟩
          rcases Prod.mk.inj (Option.some.inj h) with ⟨rfl, rfl⟩
          exact ⟨hl, rfl, rfl⟩
        · simp only [hlast, if_false] at h ⊢
          exact ih h hl
      simp only [herror, if_true] at h ⊢
      rw [lastCount_cons, List.foldl_cons]
      cases hunpack : unpackInto alloc packet procedure l.heap with
      | none =>
          -- the loop stops with an argument that is no longer defined
          simp [unpackProcCallback, hunpack] at h
      | some r =>
          rcases r with ⟨ret', procedure₁, heap₁⟩
          rcases unpackInto_layout hunpack hl with ⟨hwritten, hcount, rfl, hdecodes⟩
          simp only [unpackProcCallback, Option.bind_some, hunpack, decide_eq_true_eq] at h
          by_cases hret : ret' = 0
          case neg =>
            have hstop : decodes packet = false := by rw [hdecodes, decide_eq_false hret]
            simp only [hret, ne_eq, not_false_eq_true, if_true] at h
            rcases Prod.mk.inj h with ⟨-, h⟩
            rcases Prod.mk.inj (Option.some.inj h) with ⟨rfl, rfl⟩
            simp only [hstop, true_or, if_true]
            exact ⟨hwritten, hcount, rfl⟩
          have hgo : decodes packet = true := by rw [hdecodes, decide_eq_true hret]
          simp only [hret, ne_eq, not_true_eq_false, if_false] at h
          by_cases hlast : packet.byte 0 &&& procFlagEnd = procFlagEnd
          · simp only [hlast, if_true] at h
            rcases Prod.mk.inj h with ⟨-, h⟩
            rcases Prod.mk.inj (Option.some.inj h) with ⟨rfl, rfl⟩
            simp only [hlast, or_true, if_true]
            exact ⟨hwritten, hcount, rfl⟩
          · simp only [hlast, if_false] at h
            simp only [hgo, hlast, Bool.true_eq_false, or_self, if_false]
            rw [← hcount]
            exact ih h hwritten

end Pull

/-! ## Failed transfers -/

section Cleaned

variable {alloc : Nat → Bool} {freed : Packet cfg → Packet cfg} {procedure : FreshProc}
variable {heap heap' : Heap Block} {ret : Int} {live : List Nat} {block : Nat}

/-- A transfer leaves the array and the count of what it has decoded. -/
theorem Transfer.run_layout {t : Transfer cfg} (h : t.run freed alloc heap =
      some (ret, procedure, heap')) :
    procedure.instructions = (t.layout alloc heap).written ∧
      procedure.instructionCount = lastCount t.decoded none ∧
      heap' = (t.layout alloc heap).heap := by
  cases t with
  | push packet =>
      rcases unpackInto_layout (l := ⟨[], [], heap⟩) h rfl with ⟨hwritten, hcount, hheap, -⟩
      exact ⟨hwritten, hcount, hheap⟩
  | pull buffer connected timeout replies =>
      simp only [Transfer.run] at h
      rcases Option.map_eq_some_iff.mp h with ⟨⟨procedure', heap₁⟩, harg, heq⟩
      simp only [Prod.mk.injEq] at heq
      rcases heq with ⟨hret, rfl, rfl⟩
      have hpull :
          procPullRequest freed alloc buffer connected timeout replies .uninitialised heap =
            (ret, some (procedure', heap₁)) := Prod.ext hret harg
      unfold procPullRequest procTransaction at hpull
      simp only [Transfer.layout, Transfer.decoded]
      -- with a buffer and a connection that reads, it is the loop over the packets
      by_cases hreads : buffer = true ∧ connected = true ∧ timeout ≠ -1
      · rcases hreads with ⟨rfl, rfl, htimeout⟩
        simp only [Bool.true_eq_false, htimeout, if_false, not_false_eq_true, ne_eq, and_self,
          if_true] at hpull ⊢
        exact transactionLoop_layout (l := ⟨[], [], heap⟩) hpull rfl
      · -- nothing is read from a connection
        have hnone : procedure' = .uninitialised ∧ heap₁ = heap := by
          split at hpull
          · simp_all
          · split at hpull
            · simp_all
            · split at hpull
              · simp_all
              · exact absurd ⟨by simp_all, by simp_all, by assumption⟩ hreads
        rcases hnone with ⟨rfl, rfl⟩
        rw [if_neg hreads]
        exact ⟨rfl, rfl, rfl⟩

/-- The decoder has not lost a block when `free_proc` begins. -/
theorem Transfer.layout_holds (alloc : Nat → Bool) (hh : heap.Holds live) (t : Transfer cfg) :
    (t.layout alloc heap).heap.Holds
        (referencesOf ((t.layout alloc heap).overwritten ++ (t.layout alloc heap).written) ++
          live) ∧
      ∀ b ∈ live, (t.layout alloc heap).heap.blocks b = heap.blocks b :=
  Layout.foldl_holds (l := ⟨[], [], heap⟩) hh t.decoded

/-- A `proc_t` that has been written as far as its count tells is freed with what
its instructions refer to. -/
theorem freeProc_holds {p : StoredProc} (hle : p.instructionCount.toNat ≤ p.instructions.length)
    (hh : heap.Holds (referencesOf (p.instructions.take p.instructionCount.toNat) ++
      block :: live)) :
    ∃ heap', freeProc heap (some block) p = some heap' ∧ heap'.Holds live ∧
      ∀ b ∈ live, heap'.blocks b = heap.blocks b := by
  rcases hh.freeAll with ⟨heap₁, hfreeAll, hh₁, hkept₁⟩
  rcases Heap.Holds.free (p := some block) hh₁ with ⟨heap', hfree, hh', hkept'⟩
  refine ⟨heap', ?_, hh', ?_⟩
  · have hrun : freeInstructions heap p = some heap₁ := by
      rw [freeInstructions, if_neg (Nat.not_lt.mpr hle)]
      exact hfreeAll
    rw [freeProc, hrun]
    exact hfree
  · intro b hb
    rw [hkept' b hb, hkept₁ b (List.mem_cons_of_mem _ hb)]

/-- After a transfer into a fresh `proc_t`, failed or not, `free_proc` frees what
has been decoded and nothing else exactly when the count of the last packet tells
of instructions that have been written, and of all that have strings. -/
theorem transfer_cleaned_iff (freed : Packet cfg → Packet cfg) (alloc : Nat → Bool)
    (t : Transfer cfg) (hh : heap.Holds (block :: live))
    (hrun : t.run freed alloc heap = some (ret, procedure, heap')) :
    CleanedUp heap live block procedure heap' ↔ t.Covered alloc heap := by
  rcases t.run_layout hrun with ⟨hwritten, hcount, rfl⟩
  rcases t.layout_holds alloc hh with ⟨hlayout, hkept⟩
  rw [← hwritten] at hlayout
  unfold CleanedUp Transfer.Covered FreshProc.free
  rw [hcount, ← hwritten, lastCount]
  generalize t.layout alloc heap = l at *
  cases t.decoded.getLast? with
  | none =>
      -- the count has never been written
      simp
  | some packet =>
      simp only [Option.bind_eq_bind, Option.bind_some, Option.some.injEq, exists_eq_left']
      by_cases hle : (packet.byte 2).toNat ≤ procedure.instructions.length
      case neg =>
        have hunwritten : freeInstructions l.heap ⟨procedure.instructions, packet.byte 2⟩ = none :=
          if_pos (Nat.lt_of_not_le hle)
        simp [freeProc, hunwritten, hle]
      -- what is freed, and what is not
      have hfreed : l.heap.Holds
          (referencesOf (procedure.instructions.take (packet.byte 2).toNat) ++
            block :: (referencesOf (l.overwritten ++
              procedure.instructions.drop (packet.byte 2).toNat) ++ live)) := by
        refine hlayout.perm ?_
        have hsplit := congrArg referencesOf
          (List.take_append_drop (packet.byte 2).toNat procedure.instructions)
        rw [referencesOf_append] at hsplit
        simp only [referencesOf_append]
        rw [← hsplit]
        simp only [List.append_assoc]
        refine (List.perm_append_comm_assoc ..).trans (List.Perm.append_left _ ?_)
        simp only [← List.append_assoc]
        exact List.perm_middle
      rcases freeProc_holds (p := ⟨procedure.instructions, packet.byte 2⟩) hle hfreed with
        ⟨heap₁, hfree, hh₁, hkept₁⟩
      constructor
      · rintro ⟨heap₂, hfree', hh₂, -⟩
        obtain rfl := Option.some.inj (hfree.symm.trans hfree')
        have hlen := (hh₁.unique hh₂).length_eq
        rw [List.length_append] at hlen
        exact ⟨hle, List.length_eq_zero_iff.mp (by omega)⟩
      · rintro ⟨-, hnone⟩
        rw [hnone, List.nil_append] at hh₁
        refine ⟨heap₁, hfree, hh₁, fun b hb => ?_⟩
        rw [hkept₁ b (List.mem_append_right _ hb), hkept b (List.mem_cons_of_mem _ hb)]

/-- For a push it is enough that the decoder got to the last instruction. -/
theorem covered_push_iff (packet : Packet cfg) :
    (Transfer.push packet).Covered alloc heap ↔
      (packet.byte 2).toNat ≤ (decodedInstructions packet).length := by
  have hlen := length_storeInstructions alloc heap (decodedInstructions packet)
  have hdecoded : (decodedInstructions packet).length ≤ (packet.byte 2).toNat := by
    unfold decodedInstructions
    cases hu : unpackProcFromCspPacket cfg packet with
    | none => exact Nat.zero_le _
    | some u => exact (stops_unpack hu).length_le
  simp only [Transfer.Covered, Transfer.layout, Transfer.decoded, List.getLast?_singleton,
    Option.some.injEq, exists_eq_left', List.foldl_cons, List.foldl_nil, Layout.add, List.drop_nil,
    List.append_nil, List.take_nil, List.nil_append, hlen, and_iff_left_iff_imp]
  intro _
  rw [List.drop_eq_nil_of_le (by omega)]
  rfl

/-- What a push that has been decoded leaves. -/
theorem run_push {packet : Packet cfg} {u : Unpacked}
    (hu : unpackProcFromCspPacket cfg packet = some u) :
    (Transfer.push packet).run freed alloc heap =
      some (u.ret,
        ⟨(storeInstructions alloc heap u.procedure.instructions).1, some (packet.byte 2)⟩,
        (storeInstructions alloc heap u.procedure.instructions).2) := by
  simp only [Transfer.run, unpackInto, unpackStored, hu, Option.map_some, Option.bind_eq_bind,
    Option.bind_some, FreshProc.uninitialised, List.drop_nil, List.append_nil, pure]

/-- The server's handler does with a push that fails what is said here. -/
theorem procServePushRequest_failed {env : MemoryEnv} {m : Memory}
    (hok : env.alloc m.heap.calls = true) {packet : Packet cfg}
    (hrun : (Transfer.push packet).run freed env.alloc (m.heap.alloc env.alloc .procedure).2 =
      some (ret, procedure, heap')) (hret : ret < 0) :
    m.procServePushRequest env packet =
      (procedure.free heap' (some m.heap.calls)).map fun heap =>
        sendReply { m with heap := heap } (packet.shortReply .pushResponse true) := by
  have hblock := m.heap.alloc_fst_of_ok hok Block.procedure
  unfold Memory.procServePushRequest
  simp only [Transfer.run, unpackInto] at hrun
  generalize m.heap.alloc env.alloc Block.procedure = result at hblock hrun ⊢
  rcases result with ⟨block, heap⟩
  cases hblock
  cases hunpack : unpackStored env.alloc heap packet with
  | none =>
      rw [hunpack] at hrun
      cases hrun
  | some r =>
      rcases r with ⟨ret', p, heap₁⟩
      simp only [hunpack, Option.bind_eq_bind, Option.bind_some, pure, Option.some.injEq,
        Prod.mk.injEq] at hrun
      rcases hrun with ⟨rfl, rfl, rfl⟩
      simp only [Option.isNone_some, Bool.false_eq_true, if_false, Option.bind_eq_bind, hunpack,
        Option.bind_some, if_pos hret, FreshProc.uninitialised, List.drop_nil, List.append_nil,
        FreshProc.free, pure]
      cases freeProc heap₁ (some m.heap.calls) p with
      | none => rfl
      | some heap₂ => rfl

end Cleaned

/-! ## Pushes with an unknown instruction -/

/-- The heap with one fresh `proc_t`. -/
def freshHeap : Heap Block := (Heap.empty.alloc (fun _ => true) .procedure).2

theorem freshHeap_holds : freshHeap.Holds [0] :=
  Heap.holds_empty.alloc (fun _ => true) Block.procedure

/-- A push of two instructions: `set k 2`, and one of an unknown type. -/
def unknownLast : Packet .default :=
  .ofBytes [0x84, 1, 2, 0, 0, 2, 107, 0, 50, 0, 0, 0, 7] [] (by decide)

/-- A push of two instructions, the first of which is of an unknown type. -/
def unknownFirst : Packet .default := .ofBytes [0x84, 1, 2, 0, 0, 7] [] (by decide)

/-- What the decoder makes of the two. -/
def lastDecoded : Unpacked :=
  ⟨-1, ⟨[⟨0, .set ⟨[107], by decide⟩ ⟨[50], by decide⟩⟩, ⟨0, .unknown 7 (by decide)⟩], by decide⟩,
    13⟩

def firstDecoded : Unpacked := ⟨-1, ⟨[⟨0, .unknown 7 (by decide)⟩], by decide⟩, 6⟩

/-- The two strings of the first push are freed with its `proc_t`. -/
theorem transfer_cleaned_iff_unknownLast : ∃ procedure heap,
    (Transfer.push unknownLast).run id (fun _ => true) freshHeap = some (-1, procedure, heap) ∧
      heap.calls = freshHeap.calls + 2 ∧ CleanedUp freshHeap [] 0 procedure heap := by
  have hu : unpackProcFromCspPacket .default unknownLast = some lastDecoded := by
    decide +kernel
  refine ⟨_, _, run_push hu, rfl, ?_⟩
  refine (transfer_cleaned_iff id (fun _ => true) _ freshHeap_holds (run_push hu)).mpr ?_
  rw [covered_push_iff, decodedInstructions, hu]
  decide

/-- After the other push the second instruction is looked at, which has not been
written; after a pull without a buffer it is the count. -/
theorem failed_transfers_not_cleaned :
    (∃ procedure heap,
      (Transfer.push unknownFirst).run id (fun _ => true) freshHeap =
        some (-1, procedure, heap) ∧ ¬ CleanedUp freshHeap [] 0 procedure heap) ∧
    ∃ procedure heap,
      (Transfer.pull false true 1000 [] : Transfer .default).run id (fun _ => true) freshHeap =
        some (-2, procedure, heap) ∧ ¬ CleanedUp freshHeap [] 0 procedure heap := by
  constructor
  · have hu : unpackProcFromCspPacket .default unknownFirst = some firstDecoded := by
      decide +kernel
    refine ⟨_, _, run_push hu, ?_⟩
    rintro ⟨heap', hfree, -⟩
    have hcount : unknownFirst.byte 2 = 2 := by decide
    rw [hcount] at hfree
    cases hfree
  · refine ⟨_, _, rfl, ?_⟩
    rintro ⟨heap', hfree, -⟩
    cases hfree

end CspProc
