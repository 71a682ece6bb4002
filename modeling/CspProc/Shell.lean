import CspProc.Delivery
import CspProc.Typing

/-! # Shells over a network

Any number of shells with the commands of `slash_csp_proc.c`, each with a current
procedure, and any number of nodes, each with a server behind a network of `Network`.
A shell waits for the transaction of its command; meanwhile the other shells and the
nodes go on. Allocations succeed, and what `free_proc` does is left to `Cleanup`: after a
failed pull it is called on a procedure that has not been filled, which is taken to do
nothing to the rest.

* `Editor.opFits_of_read`, `Editor.opInEnum_of_read` — what is known of an instruction
  that a command has read;
* `Network.Requested` — what the requests that have been sent are about, and what becomes
  of the slots;
* `reserved_slots_kept` — no shell ever reaches a reserved slot;
* `shells_valid` — whatever shells create, push and pull can be listed.
-/

namespace CspProc

variable {cfg : Config}

/-! ## Commands that make a request -/

/-- What the commands depend on besides: `RESERVED_PROC_SLOTS`; what `node` and `timeout`
are after `optparse_parse`, be it an option's value or the default; and the node that
`csp_connect` reaches for a host. The shell is compiled with the encoder. -/
structure Shell (cfg : Config) extends Editor where
  reservedProcSlots : Nat
  optparseNode : List CStr → UInt32
  optparseTimeout : List CStr → UInt32
  cspConnect : Int → UInt16
  enum_eq : sizeofEnum = cfg.sizeofEnum

/-- The commands that make a request. -/
inductive RequestCommand where
  | del
  | pull
  | push
  | slots
  | run
deriving DecidableEq

/-- What a command asks for, of which host, and how long it waits for packets. -/
structure ShellRequest where
  op : ClientOp
  host : Int
  timeout : Int

namespace Shell

variable (sh : Shell cfg)

/-- `if (++argi < slash->argc) node = atoi(slash->argv[argi])`, and the `int` it becomes. -/
def host (argv : List CStr) (argi : Nat) : Int :=
  match argv[argi]? with
  | some s => cInt (UInt32.ofInt (atoi s)).toNat
  | none => cInt (sh.optparseNode argv.tail).toNat

/-- `timeout`, as the `int` it becomes. -/
def timeout (argv : List CStr) : Int := cInt (sh.optparseTimeout argv.tail).toNat

/-- What `proc_del`, `proc_pull`, `proc_push` and `proc_run` have in common: the arguments
up to the call of the client, whose slot is a `uint8_t`. All failures return
`SLASH_EINVAL`. -/
def slotRequest (op : UInt8 → ClientOp) (argv : List CStr) : Option ShellRequest :=
  let argi := sh.optparseParse argv.tail
  if argi < 0 then none
  else
    match argv[argi.toNat + 1]? with
    | none => none
    | some s =>
        let procSlot := UInt32.ofInt (atoi s)
        if procSlot.toNat < sh.reservedProcSlots ∨ maxProcSlot < procSlot.toNat then none
        else some ⟨op procSlot.toUInt8, sh.host argv (argi.toNat + 2), sh.timeout argv⟩

/-- `proc_del`. -/
def procDel (argv : List CStr) : Option ShellRequest := sh.slotRequest .del argv

/-- `proc_pull`. -/
def procPull (argv : List CStr) : Option ShellRequest := sh.slotRequest .pull argv

/-- `proc_push`. -/
def procPush (argv : List CStr) (current : sh.Current) : Option ShellRequest :=
  match current with
  | none => none
  | some p => sh.slotRequest (.push · (p.proc sh.max_le)) argv

/-- `proc_slots`, with what its array holds. -/
def procSlots (slots : List UInt8) (argv : List CStr) : Option ShellRequest :=
  let argi := sh.optparseParse argv.tail
  if argi < 0 then none
  else some ⟨.slots slots, sh.host argv (argi.toNat + 1), sh.timeout argv⟩

/-- `proc_run`. -/
def procRun (argv : List CStr) : Option ShellRequest := sh.slotRequest .run argv

/-- The request of a command, unless it returns `SLASH_EINVAL`. -/
def request (c : RequestCommand) (argv : List CStr) (slots : List UInt8) (current : sh.Current) :
    Option ShellRequest :=
  match c with
  | .del => sh.procDel argv
  | .pull => sh.procPull argv
  | .push => sh.procPush argv current
  | .slots => sh.procSlots slots argv
  | .run => sh.procRun argv

/-- The current procedure when a request is made: `proc pull` frees it. -/
def requesting (c : RequestCommand) (current : sh.Current) : sh.Current :=
  if c = .pull then none else current

end Shell

/-- The procedure that a pull has filled, in memory that held anything; the array has no
place behind its last instruction. -/
def EditBuffer.load {n : Nat} (memory : EditBuffer n) (p : Proc) : Option (EditBuffer n) :=
  if h : p.instructions.length ≤ n then
    some
      { instructions := p.instructions ++ memory.instructions.drop p.instructions.length
        instructionCount := p.instructionCount
        length_eq := by
          rw [List.length_append, List.length_drop, memory.length_eq]
          omega }
  else none

/-! ## Shells and nodes -/

/-- A shell: its current procedure, and the node and the number of the transaction that it
waits for. -/
structure ShellState (sh : Shell cfg) where
  current : sh.Current
  waiting : Option (UInt16 × Nat)

/-- The network in front of each node, and the shells. -/
structure Shells (sh : Shell cfg) where
  nodes : UInt16 → Network cfg
  shells : Nat → ShellState sh

/-- A shell runs an editing command, or a command that makes a request, with the buffer of
`csp_buffer_get`, if there is one, and with or without a connection; its transaction
returns, for a pull with what the allocated memory held; and the steps of the network in
front of a node. -/
inductive ShellsInput (sh : Shell cfg) where
  | edit (k : Nat) (input : sh.EditInput)
  | request (k : Nat) (c : RequestCommand) (argv : List CStr) (slots : List UInt8)
      (buffer : Option (Packet cfg)) (connected : Bool)
  | finish (k : Nat) (memory : EditBuffer sh.maxInstructions)
  | serve (node : UInt16) (n : Nat) (env : Env) (packet : Packet cfg)
  | read (node : UInt16) (n : Nat) (packet : Packet cfg)

namespace Shells

variable {sh : Shell cfg}

/-- Nodes with these stores, and no current procedures. -/
def start (stores : UInt16 → Store) : Shells sh where
  nodes node := ⟨stores node, [], []⟩
  shells _ := ⟨none, none⟩

def setNode (s : Shells sh) (node : UInt16) (net : Network cfg) : Shells sh :=
  { s with nodes := Function.update s.nodes node net }

def setShell (s : Shells sh) (k : Nat) (state : ShellState sh) : Shells sh :=
  { s with shells := Function.update s.shells k state }

/-- The current procedure when a transaction has returned. A pull that returns 0 has filled
it; when it fails, it is freed, whatever its memory held. -/
def finished (freed : Packet cfg → Packet cfg) (tx : ClientTransaction cfg)
    (memory : EditBuffer sh.maxInstructions) (current : sh.Current) : Option sh.Current :=
  match tx.op with
  | .pull _ =>
      if (tx.result freed).1 = 0 then
        match (tx.result freed).2 with
        | .procedure p => (memory.load p).map some
        | _ => none
      else some none
  | _ => some current

/-- One step. A shell that waits takes no command. -/
def next (freed : Packet cfg → Packet cfg) (s : Shells sh) : ShellsInput sh → Option (Shells sh)
  | .edit k input =>
      match (s.shells k).waiting with
      | some _ => none
      | none => (sh.next (s.shells k).current input).map fun current =>
          s.setShell k ⟨current, none⟩
  | .request k c argv slots buffer connected =>
      match (s.shells k).waiting with
      | some _ => none
      | none =>
          let current := (s.shells k).current
          match sh.request c argv slots current, buffer with
          | none, _ => some s
          | some _, none => some (s.setShell k ⟨sh.requesting c current, none⟩)
          | some r, some buffer =>
              let node := sh.cspConnect r.host
              if connected = true then
                ((s.nodes node).next (.request r.op buffer r.timeout)).map fun net =>
                  (s.setNode node net).setShell k
                    ⟨sh.requesting c current, some (node, (s.nodes node).transactions.length)⟩
              else (r.op.packet buffer).map fun _ => s.setShell k ⟨sh.requesting c current, none⟩
  | .finish k memory =>
      match (s.shells k).waiting with
      | none => none
      | some (node, n) =>
          match (s.nodes node).transactions[n]? with
          | none => none
          | some tx => (finished freed tx memory (s.shells k).current).map fun current =>
              s.setShell k ⟨current, none⟩
  | .serve node n env packet =>
      ((s.nodes node).next (.serve n env packet)).map (s.setNode node)
  | .read node n packet => ((s.nodes node).next (.read n packet)).map (s.setNode node)

end Shells

/-- A procedure that is pushed fits a packet, as `proc size` can tell, and the array for
the slots is that of `proc_slots`. -/
def ClientOp.Sized (cfg : Config) : ClientOp → Prop
  | .push _ procedure => 2 + (Wire.procBytes cfg procedure).length ≤ cfg.cspBufferSize
  | .slots array => array.length = maxProcSlot + 1
  | _ => True

/-- The requests that are made are sized. -/
def ShellsInput.Sized {sh : Shell cfg} (s : Shells sh) : ShellsInput sh → Prop
  | .request k c argv slots _ _ =>
      ∀ r ∈ sh.request c argv slots (s.shells k).current, r.op.Sized cfg
  | _ => True

/-- Besides, operators that are none are recognised, and a transaction that returns has
read replies to it alone. -/
def ShellsInput.Works {sh : Shell cfg} (s : Shells sh) (i : ShellsInput sh) : Prop :=
  i.Sized s ∧ match i with
    | .edit _ input => sh.operatorRecognised input = true
    | .finish k _ => ∀ w ∈ (s.shells k).waiting, (s.nodes w.1).OwnReplies w.2
    | _ => True

/-! ## What editing reads -/

namespace Editor

variable {ed : Editor}

/-- What is stored in an enum fits it. -/
theorem storedEnum_lt (n : Nat) (v : Int) : (storedEnum n v).toNat < 256 ^ n := by
  have hpos : 0 < (256 : Int) ^ n := by positivity
  have hlo := Int.emod_nonneg v (ne_of_gt hpos)
  have hhi := Int.emod_lt_of_pos v hpos
  rw [storedEnum, UInt32.toNat_ofNat']
  refine Nat.lt_of_le_of_lt (Nat.mod_le _ _) ?_
  rw [Int.toNat_lt hlo]
  exact_mod_cast hhi

theorem checkedOp_fits {n : Nat} {parsed op : UInt32} (h : checkedOp n parsed = some op) :
    op.toNat < 256 ^ n := by
  unfold checkedOp at h
  dsimp only at h
  split at h
  · cases h
  · rw [← Option.some.inj h]
    exact storedEnum_lt n _

/-- An instruction that is read has an operator that fits its enum. -/
theorem opFits_of_read {c : EditCommand ed.maxInstructions} {argv : List CStr} {i : Nat}
    {ins : ProcInstruction} (h : ed.read c argv i = some ins) :
    ins.instruction.OpFits ed.sizeofEnum := by
  cases c with
  | new | pop => cases h
  | noop =>
      rw [← Option.some.inj h]
      trivial
  | block | ifelse =>
      simp only [read, readCondition, Option.bind_eq_bind, Option.bind_eq_some_iff, pure,
        Option.some.injEq] at h
      rcases h with ⟨paramA, -, s, -, op, hop, paramB, -, rfl⟩
      exact checkedOp_fits hop
  | unop =>
      simp only [read, readUnop, Option.bind_eq_bind, Option.bind_eq_some_iff, pure,
        Option.some.injEq] at h
      rcases h with ⟨param, -, s, -, op, hop, result, -, rfl⟩
      exact checkedOp_fits hop
  | binop =>
      simp only [read, readBinop, Option.bind_eq_bind, Option.bind_eq_some_iff, pure,
        Option.some.injEq] at h
      rcases h with ⟨paramA, -, s, -, op, hop, paramB, -, result, -, rfl⟩
      exact checkedOp_fits hop
  | set =>
      simp only [read, readSet, Option.bind_eq_bind, Option.bind_eq_some_iff, pure,
        Option.some.injEq] at h
      rcases h with ⟨param, -, value, -, rfl⟩
      trivial
  | call =>
      simp only [read, readCall, Option.bind_eq_bind, Option.bind_eq_some_iff, pure,
        Option.some.injEq] at h
      rcases h with ⟨procedureSlot, -, rfl⟩
      trivial

/-- Where operators are recognised, the operator of an instruction that is read is one. -/
theorem opInEnum_of_read {input : ed.EditInput} (hrec : ed.operatorRecognised input = true)
    {ins : ProcInstruction}
    (h : ed.read input.command input.argv (ed.argi input.argv) = some ins) :
    ins.instruction.OpInEnum := by
  rcases input with ⟨c, argv⟩
  cases c with
  | new | pop => cases h
  | noop =>
      have hnoop : readNoop (ed.argi argv) = some ins := h
      exact (readNoop_valid hnoop).2
  | block | ifelse =>
      refine (readCondition_valid hrec rfl ?_ h).2
      exact fun _ _ _ hop => ⟨rfl, hop⟩
  | unop => exact (readUnop_valid hrec rfl h).2
  | binop => exact (readBinop_valid hrec rfl h).2
  | set => exact (readSet_valid h).2
  | call => exact (readCall_valid h).2

end Editor

/-! ## What a pull fills -/

theorem EditBuffer.list_load {n : Nat} {memory p' : EditBuffer n} {p : Proc}
    (h : memory.load p = some p') :
    p'.list = p.instructions ∧ p'.instructionCount.toNat ≤ n := by
  unfold load at h
  split at h
  · rename_i hle
    rw [← Option.some.inj h]
    simp only [list, Proc.instructionCount_toNat, List.take_left]
    exact ⟨trivial, hle⟩
  · cases h

/-- The procedure that the decoder has filled is well-formed, whatever was in the packets. -/
def CallbackArg.WellFormed (cfg : Config) : CallbackArg → Prop
  | .procedure p => p.WellFormed cfg
  | _ => True

/-- A callback that does not fail leaves its argument well-formed. -/
theorem respond_wellFormed {op : ClientOp} {packet : Packet cfg} {arg : CallbackArg}
    (harg : arg.WellFormed cfg) (h : (respond op.callback packet arg).1 = false) :
    (respond op.callback packet arg).2.WellFormed cfg := by
  cases op with
  | del | push | run => exact harg
  | pull slot =>
      by_cases herror : packet.errorFlag = 0
      · simp only [ClientOp.callback, respond, herror, if_true] at h ⊢
        cases hunpack : unpackProcFromCspPacket cfg packet with
        | none => trivial
        | some u =>
            rcases u with ⟨ret, p, offset⟩
            have hret : ret = 0 := by simpa [hunpack] using h
            subst hret
            exact (payload_of_unpacked hunpack).1
      · simp only [ClientOp.callback, respond, herror, if_false]
        exact harg
  | slots array =>
      simp only [ClientOp.callback, respond]
      split
      · cases arg with
        | slots array slotCount =>
            dsimp only
            split
            · trivial
            · trivial
        | nothing | procedure | undefined => exact harg
      · exact harg

/-- What a transaction that returns 0 has filled is well-formed. -/
theorem ClientTransaction.result_wellFormed {freed : Packet cfg → Packet cfg}
    {tx : ClientTransaction cfg} (h : (tx.result freed).1 = 0) :
    (tx.result freed).2.WellFormed cfg := by
  have hloop : ∀ (packets : List (Packet cfg)) (arg : CallbackArg), arg.WellFormed cfg →
      (transactionLoop freed tx.op.callback packets arg).1 = 0 →
      (transactionLoop freed tx.op.callback packets arg).2.WellFormed cfg := by
    intro packets
    induction packets with
    | nil => exact fun arg _ hret => by cases hret
    | cons packet packets ih =>
        intro arg harg hret
        rw [transactionLoop_cons] at hret ⊢
        cases hstop : (respond tx.op.callback packet arg).1 with
        | true =>
            rw [hstop, if_pos rfl] at hret
            cases hret
        | false =>
            have hkept := respond_wellFormed harg hstop
            rw [hstop, if_neg Bool.false_ne_true] at hret
            rw [if_neg Bool.false_ne_true]
            split
            · exact hkept
            · rename_i hend
              rw [if_neg hend] at hret
              exact ih _ hkept hret
  unfold result procTransaction at h ⊢
  rw [if_neg (by simp)] at h ⊢
  split at h
  · cases h
  · rename_i htimeout
    rw [if_neg htimeout]
    refine hloop tx.packets tx.op.arg ?_ h
    cases tx.op with
    | del | pull | push | slots | run => trivial

/-! ## What is asked of a node -/

/-- A request that fits, of a slot with `R`, and if it is a push, of a procedure with `V`. -/
structure ClientOp.Allowed (cfg : Config) (R : UInt8 → Prop) (V : Proc → Prop) (op : ClientOp) :
    Prop where
  fits : op.Fits cfg
  slot : ∀ slot, op.slot = some slot → R slot
  pushed : ∀ slot p, op = .push slot p → V p

/-- The requests of a step are allowed. -/
def NetworkInput.Allowed (R : UInt8 → Prop) (V : Proc → Prop) : NetworkInput cfg → Prop
  | .request op _ _ => op.Allowed cfg R V
  | _ => True

namespace Network

variable {R : UInt8 → Prop} {V : Proc → Prop} {net net' : Network cfg} {i : NetworkInput cfg}

/-- All requests are allowed, and have their bytes. -/
structure Requested (R : UInt8 → Prop) (V : Proc → Prop) (net : Network cfg) : Prop where
  allowed : ∀ (n : Nat) (tx : ClientTransaction cfg), net.transactions[n]? = some tx →
    tx.op.Allowed cfg R V
  received : ∀ (n : Nat) (tx : ClientTransaction cfg), net.transactions[n]? = some tx →
    tx.request.received = tx.op.bytes cfg

theorem Requested.next (h : net.Requested R V) (hi : i.Allowed R V)
    (hnext : net.next i = some net') : net'.Requested R V := by
  have hstep := step_of_next hnext
  constructor
  · intro n tx' htx'
    rcases hstep.transaction htx' with ⟨tx, htx, hop, -⟩ | ⟨-, buffer, timeout, rfl, -⟩
    · rw [hop]
      exact h.allowed n tx htx
    · exact hi
  · intro n tx' htx'
    rcases hstep.transaction htx' with
      ⟨tx, htx, hop, hrequest⟩ | ⟨-, buffer, timeout, rfl, hpacket⟩
    · rw [hop, hrequest]
      exact h.received n tx htx
    · exact tx'.op.received_packet hi.fits hpacket

/-- Only a slot with `R` changes; it is emptied, or gets a procedure with `V`. -/
theorem Requested.store (h : net.Requested R V) (hnext : net.next i = some net') (slot : UInt8) :
    net'.store slot = net.store slot ∨
      R slot ∧ (net'.store slot = Proc.empty ∨ V (net'.store slot)) := by
  cases step_of_next hnext with
  | request => exact .inl rfl
  | read => exact .inl rfl
  | @serve n env packet tx served htx hreceived hserved =>
      have hallowed := h.allowed n tx htx
      have hchanges := tx.op.changes hallowed.fits (hreceived.trans (h.received n tx htx)) hserved
      change served.store slot = net.store slot ∨
        R slot ∧ (served.store slot = Proc.empty ∨ V (served.store slot))
      cases hchanges with
      | same hsame => exact .inl (congrFun hsame slot)
      | deleted s hop hdeleted =>
          rw [hdeleted]
          by_cases hs : slot = s
          · rw [hs, Function.update_self]
            exact .inr ⟨hallowed.slot s (by rw [hop]; rfl), .inl rfl⟩
          · exact .inl (Function.update_of_ne hs _ _)
      | stored s p hop _ hstored =>
          rw [hstored]
          by_cases hs : slot = s
          · rw [hs, Function.update_self]
            exact .inr ⟨hallowed.slot s (by rw [hop]; rfl), .inr (hallowed.pushed s p hop)⟩
          · exact .inl (Function.update_of_ne hs _ _)

/-- Where every occupied slot holds a procedure with `V`, it goes on to do so. -/
theorem Requested.stored (h : net.Requested R V)
    (hstored : ∀ slot, net.store.occupied slot = true → V (net.store slot))
    (hnext : net.next i = some net') (slot : UInt8) (hocc : net'.store.occupied slot = true) :
    V (net'.store slot) := by
  rcases h.store hnext slot with hsame | ⟨-, hempty | hV⟩
  · rw [hsame]
    refine hstored slot ?_
    rwa [Store.occupied_eq_true, hsame, ← Store.occupied_eq_true] at hocc
  · rw [Store.occupied_eq_true, hempty] at hocc
    exact absurd rfl hocc
  · exact hV

/-- What a pull that returns 0 has filled is a procedure with `V`. -/
theorem Answered.pulled {freed : Packet cfg → Packet cfg}
    (hfreed : ∀ packet, (freed packet).byte 0 = packet.byte 0)
    (hV : ∀ p, V p → p.WellFormed cfg) (h : net.Answered V) {n : Nat} (hown : net.OwnReplies n)
    {tx : ClientTransaction cfg} (htx : net.transactions[n]? = some tx) {slot : UInt8}
    (hop : tx.op = .pull slot) (hret : (tx.result freed).1 = 0) :
    ∃ p, V p ∧ (tx.result freed).2 = .procedure p := by
  have hread := fun packet (hp : packet ∈ tx.packets) => h.packets hown htx hp
  rcases tx.result_zero hfreed (fun packet hp => (hread packet hp).isEnd) hret with
    ⟨first, more, hpackets, hflag, -, harg⟩
  rcases hread first (hpackets ▸ List.mem_cons_self) with ⟨error, rest, hreply, hpayload⟩
  have hcarried := hpayload ((isEnd_of_received hreply).2.mp hflag)
  rw [hop] at hcarried
  rcases hcarried with ⟨p, hp, hbytes⟩
  refine ⟨p, hp, ?_⟩
  rw [harg, hop, respond_pull (hV p hp) hbytes]

end Network

/-! ## Steps of the shells -/

namespace Shell

variable {sh : Shell cfg} {r : ShellRequest}

/-- A slot that a request names is none of the reserved ones. -/
theorem slot_of_slotRequest {op : UInt8 → ClientOp} {argv : List CStr}
    (h : sh.slotRequest op argv = some r) :
    ∃ slot, r.op = op slot ∧ sh.reservedProcSlots ≤ slot.toNat := by
  simp only [slotRequest] at h
  split at h
  · cases h
  · split at h
    · cases h
    · rename_i s _
      split at h
      · cases h
      · rename_i hvalid
        refine ⟨_, by rw [← Option.some.inj h], ?_⟩
        have hlt : (UInt32.ofInt (atoi s)).toNat < 256 := by
          simp only [maxProcSlot] at hvalid
          omega
        rw [UInt32.toNat_toUInt8]
        omega

/-- A request is for a slot that is not reserved, or for the list of slots, and what is
pushed is the current procedure. -/
theorem request_cases {c : RequestCommand} {argv : List CStr} {slots : List UInt8}
    {current : sh.Current} (h : sh.request c argv slots current = some r) :
    (∀ slot, r.op.slot = some slot → sh.reservedProcSlots ≤ slot.toNat) ∧
      ∀ slot p, r.op = .push slot p → ∃ q, current = some q ∧ p = q.proc sh.max_le := by
  cases c with
  | del | pull | run =>
      rcases slot_of_slotRequest h with ⟨slot, hop, hslot⟩
      rw [hop]
      refine ⟨?_, nofun⟩
      rintro _ ⟨⟩
      exact hslot
  | push =>
      cases current with
      | none => cases h
      | some q =>
          have hpush : sh.slotRequest (.push · (q.proc sh.max_le)) argv = some r := h
          rcases slot_of_slotRequest hpush with ⟨slot, hop, hslot⟩
          rw [hop]
          constructor
          · rintro _ ⟨⟩
            exact hslot
          · rintro _ _ ⟨⟩
            exact ⟨q, rfl, rfl⟩
  | slots =>
      simp only [request, procSlots] at h
      split at h
      · cases h
      · rw [← Option.some.inj h]
        exact ⟨nofun, nofun⟩

end Shell

namespace Shells

variable {sh : Shell cfg} {freed : Packet cfg → Packet cfg} {s s' : Shells sh}
variable {i : ShellsInput sh}

/-- The step of the network in front of a node that a step is. -/
inductive At (s : Shells sh) (node : UInt16) : ShellsInput sh → NetworkInput cfg → Prop where
  | request {k : Nat} {c : RequestCommand} {argv : List CStr} {slots : List UInt8}
      {buffer : Packet cfg} {r : ShellRequest}
      (hr : sh.request c argv slots (s.shells k).current = some r) :
      At s node (.request k c argv slots (some buffer) true) (.request r.op buffer r.timeout)
  | serve (n : Nat) (env : Env) (packet : Packet cfg) :
      At s node (.serve node n env packet) (.serve n env packet)
  | read (n : Nat) (packet : Packet cfg) :
      At s node (.read node n packet) (.read n packet)

theorem setNode_nodes (s : Shells sh) {node node' : UInt16} {net : Network cfg} :
    (s.setNode node net).nodes node' = if node' = node then net else s.nodes node' :=
  Function.update_apply ..

theorem setShell_shells (s : Shells sh) {k k' : Nat} {state : ShellState sh} :
    (s.setShell k state).shells k' = if k' = k then state else s.shells k' :=
  Function.update_apply ..

/-- What a command that makes a request does. -/
theorem request_of_next {k : Nat} {c : RequestCommand} {argv : List CStr} {slots : List UInt8}
    {buffer : Option (Packet cfg)} {connected : Bool}
    (h : s.next freed (.request k c argv slots buffer connected) = some s') :
    s' = s ∨ s' = s.setShell k ⟨sh.requesting c (s.shells k).current, none⟩ ∨
      ∃ r packet net node, sh.request c argv slots (s.shells k).current = some r ∧
        buffer = some packet ∧ connected = true ∧
        (s.nodes node).next (.request r.op packet r.timeout) = some net ∧
        s' = (s.setNode node net).setShell k ⟨sh.requesting c (s.shells k).current,
          some (node, (s.nodes node).transactions.length)⟩ := by
  simp only [next] at h
  split at h
  · cases h
  · split at h
    · exact .inl (Option.some.inj h).symm
    · exact .inr (.inl (Option.some.inj h).symm)
    · rename_i r packet hr
      split at h
      · rename_i hconnected
        rcases Option.map_eq_some_iff.mp h with ⟨net, hnet, rfl⟩
        exact .inr (.inr ⟨r, packet, net, _, hr, rfl, hconnected, hnet, rfl⟩)
      · rcases Option.map_eq_some_iff.mp h with ⟨-, -, rfl⟩
        exact .inr (.inl rfl)

/-- What the end of a transaction does. -/
theorem finish_of_next {k : Nat} {memory : EditBuffer sh.maxInstructions}
    (h : s.next freed (.finish k memory) = some s') :
    ∃ (node : UInt16) (n : Nat) (tx : ClientTransaction cfg) (current : sh.Current),
      (s.shells k).waiting = some (node, n) ∧ (s.nodes node).transactions[n]? = some tx ∧
      finished freed tx memory (s.shells k).current = some current ∧
      s' = s.setShell k ⟨current, none⟩ := by
  simp only [next] at h
  split at h
  · cases h
  · rename_i node n hwaiting
    split at h
    · cases h
    · rename_i tx htx
      rcases Option.map_eq_some_iff.mp h with ⟨current, hcurrent, rfl⟩
      exact ⟨node, n, tx, current, hwaiting, htx, hcurrent, rfl⟩

/-- The network in front of a node stays as it is, or takes a step of its own. -/
theorem node_of_next (h : s.next freed i = some s') (node : UInt16) :
    s'.nodes node = s.nodes node ∨
      ∃ j, At s node i j ∧ (s.nodes node).next j = some (s'.nodes node) := by
  cases i with
  | edit k input =>
      simp only [next] at h
      split at h
      · cases h
      · rcases Option.map_eq_some_iff.mp h with ⟨current, -, rfl⟩
        exact .inl rfl
  | request k c argv slots buffer connected =>
      rcases request_of_next h with rfl | rfl | ⟨r, packet, net, m, hr, rfl, rfl, hnet, rfl⟩
      · exact .inl rfl
      · exact .inl rfl
      · change ((s.setNode m net).nodes node) = s.nodes node ∨
          ∃ j, At s node _ j ∧ (s.nodes node).next j = some ((s.setNode m net).nodes node)
        rw [setNode_nodes]
        split
        · rename_i hm
          rw [hm]
          exact .inr ⟨_, .request hr, hnet⟩
        · exact .inl rfl
  | finish k memory =>
      rcases finish_of_next h with ⟨m, n, tx, current, -, -, -, rfl⟩
      exact .inl rfl
  | serve m n env packet =>
      rcases Option.map_eq_some_iff.mp h with ⟨net, hnet, rfl⟩
      rw [setNode_nodes]
      split
      · rename_i hm
        rw [hm]
        exact .inr ⟨_, .serve n env packet, hnet⟩
      · exact .inl rfl
  | read m n packet =>
      rcases Option.map_eq_some_iff.mp h with ⟨net, hnet, rfl⟩
      rw [setNode_nodes]
      split
      · rename_i hm
        rw [hm]
        exact .inr ⟨_, .read n packet, hnet⟩
      · exact .inl rfl

/-- What a pull that returns 0 in a step has filled. -/
structure Fills (freed : Packet cfg → Packet cfg) (s : Shells sh) (i : ShellsInput sh)
    (memory : EditBuffer sh.maxInstructions) (q : Proc) : Prop where
  returned : ∃ (k : Nat) (node : UInt16) (n : Nat) (tx : ClientTransaction cfg) (slot : UInt8),
    i = .finish k memory ∧ (s.shells k).waiting = some (node, n) ∧
    (s.nodes node).transactions[n]? = some tx ∧ tx.op = .pull slot ∧ (tx.result freed).1 = 0 ∧
    (tx.result freed).2 = .procedure q

/-- A current procedure is an earlier one, perhaps edited, or what a pull has filled. -/
theorem current_of_next (h : s.next freed i = some s') {k : Nat}
    {p' : EditBuffer sh.maxInstructions} (hp' : (s'.shells k).current = some p') :
    (s.shells k).current = some p' ∨
    (∃ input ret, i = .edit k input ∧
      sh.run input (s.shells k).current = some (ret, some p')) ∨
    ∃ (q : Proc) (memory : EditBuffer sh.maxInstructions), s.Fills freed i memory q ∧
      memory.load q = some p' := by
  -- a step that leaves the shell alone, or with no current procedure
  have hset : ∀ {m : Nat} {current : sh.Current} {waiting : Option (UInt16 × Nat)},
      s'.shells = (s.setShell m ⟨current, waiting⟩).shells →
      (k = m ∧ current = some p') ∨ (s.shells k).current = some p' := by
    intro m current waiting hshells
    rw [hshells, setShell_shells] at hp'
    split at hp'
    · exact .inl ⟨‹_›, hp'⟩
    · exact .inr hp'
  cases i with
  | edit m input =>
      simp only [next] at h
      split at h
      · cases h
      · rcases Option.map_eq_some_iff.mp h with ⟨current, hcurrent, rfl⟩
        rcases hset rfl with ⟨rfl, rfl⟩ | hold
        · rcases Option.map_eq_some_iff.mp hcurrent with ⟨⟨ret, current⟩, hrun, rfl⟩
          exact .inr (.inl ⟨input, ret, rfl, hrun⟩)
        · exact .inl hold
  | request m c argv slots buffer connected =>
      have hrequesting : ∀ {current : sh.Current}, sh.requesting c current = some p' →
          current = some p' := by
        intro current hcurrent
        unfold Shell.requesting at hcurrent
        split at hcurrent
        · cases hcurrent
        · exact hcurrent
      left
      rcases request_of_next h with rfl | rfl | ⟨r, packet, net, node, -, -, -, -, rfl⟩
      · exact hp'
      · rcases hset rfl with ⟨rfl, hcurrent⟩ | hold
        · exact hrequesting hcurrent
        · exact hold
      · rcases hset rfl with ⟨rfl, hcurrent⟩ | hold
        · exact hrequesting hcurrent
        · exact hold
  | finish m memory =>
      rcases finish_of_next h with ⟨node, n, tx, current, hwaiting, htx, hfinished, rfl⟩
      rcases hset rfl with ⟨rfl, rfl⟩ | hold
      · unfold finished at hfinished
        split at hfinished
        · rename_i slot hop
          split at hfinished
          · rename_i hret
            split at hfinished
            · rename_i q hq
              rcases Option.map_eq_some_iff.mp hfinished with ⟨p, hload, hp⟩
              rw [Option.some.inj hp] at hload
              exact .inr (.inr ⟨q, memory,
                ⟨k, node, n, tx, slot, rfl, hwaiting, htx, hop, hret, hq⟩, hload⟩)
            · cases hfinished
          · cases hfinished
        · exact .inl (Option.some.inj hfinished)
      · exact .inl hold
  | serve node n env packet =>
      rcases Option.map_eq_some_iff.mp h with ⟨net, -, rfl⟩
      exact .inl hp'
  | read node n packet =>
      rcases Option.map_eq_some_iff.mp h with ⟨net, -, rfl⟩
      exact .inl hp'

/-! ## Runs of the shells -/

variable {R : UInt8 → Prop} {V : Proc → Prop} {P : ProcInstruction → Prop}

/-- `P` holds of the instructions of every current procedure, and the requests that have
been sent are allowed. -/
structure Inv (R : UInt8 → Prop) (V : Proc → Prop) (P : ProcInstruction → Prop) (s : Shells sh) :
    Prop where
  current : ∀ (k : Nat) (p : EditBuffer sh.maxInstructions), (s.shells k).current = some p →
    Editor.Keeps P p
  requested : ∀ node, (s.nodes node).Requested R V

/-- Known instructions with `P` make a well-formed procedure, with `V` if it fits a packet. -/
def Makes (cfg : Config) (V : Proc → Prop) (P : ProcInstruction → Prop) : Prop :=
  ∀ p : Proc, (∀ ins ∈ p.instructions, ins.instruction.isKnown = true ∧ P ins) →
    p.WellFormed cfg ∧ (2 + (Wire.procBytes cfg p).length ≤ cfg.cspBufferSize → V p)

/-- The requests of the commands are allowed. -/
theorem Inv.allowed (h : s.Inv R V P) (hR : ∀ slot, sh.reservedProcSlots ≤ slot.toNat → R slot)
    (hmakes : Makes cfg V P) (hi : i.Sized s) {node : UInt16} {j : NetworkInput cfg}
    (hj : At s node i j) : j.Allowed R V := by
  cases hj with
  | serve => trivial
  | read => trivial
  | @request k c argv slots buffer r hr =>
      rcases Shell.request_cases hr with ⟨hslot, hpush⟩
      have hsized : r.op.Sized cfg := hi r hr
      have hpushed : ∀ slot p, r.op = .push slot p → p.WellFormed cfg ∧
          (2 + (Wire.procBytes cfg p).length ≤ cfg.cspBufferSize → V p) := by
        intro slot p hop
        rcases hpush slot p hop with ⟨q, hq, rfl⟩
        rcases h.current k q hq with ⟨huse, hall⟩
        exact hmakes _ fun ins hins => ⟨huse.known ins hins, hall ins hins⟩
      generalize r.op = op at hslot hsized hpushed
      cases op with
      | push slot p =>
          rcases hpushed slot p rfl with ⟨hp, hV⟩
          refine ⟨⟨hp, hsized⟩, fun s hs => hR s (hslot s hs), ?_⟩
          rintro _ _ ⟨⟩
          exact hV hsized
      | slots array => exact ⟨hsized, nofun, nofun⟩
      | del slot | pull slot | run slot =>
          exact ⟨trivial, fun s hs => hR s (hslot s hs), nofun⟩

theorem Inv.next (h : s.Inv R V P) (hR : ∀ slot, sh.reservedProcSlots ≤ slot.toNat → R slot)
    (hmakes : Makes cfg V P) (hi : i.Sized s)
    (hread : ∀ k input, i = .edit k input → ∀ ins,
      sh.read input.command input.argv (sh.argi input.argv) = some ins → P ins)
    (hfilled : ∀ memory q, s.Fills freed i memory q →
      ∀ ins ∈ q.instructions, ins.instruction.isKnown = true ∧ P ins)
    (hnext : s.next freed i = some s') : s'.Inv R V P := by
  constructor
  · intro k p' hp'
    rcases current_of_next hnext hp' with
      hold | ⟨input, ret, hi', hrun⟩ | ⟨q, memory, hq, hload⟩
    · exact h.current k p' hold
    · exact Editor.run_keeps (hread k input hi') (h.current k) hrun p' rfl
    · rcases EditBuffer.list_load hload with ⟨hlist, hcount⟩
      refine ⟨⟨hcount, ?_⟩, ?_⟩
      · rw [hlist]
        exact fun ins hins => (hfilled memory q hq ins hins).1
      · rw [hlist]
        exact fun ins hins => (hfilled memory q hq ins hins).2
  · intro node
    rcases node_of_next hnext node with hsame | ⟨j, hj, hstep⟩
    · rw [hsame]
      exact h.requested node
    · exact (h.requested node).next (h.allowed hR hmakes hi hj) hstep

theorem Inv.start {stores : UInt16 → Store} : (start stores : Shells sh).Inv R V P where
  current _ _ hp := by cases hp
  requested _ := ⟨fun _ _ h => (by cases h), fun _ _ h => (by cases h)⟩

end Shells

/-- No shell ever reaches a reserved slot: whatever is typed at any number of shells, and
whatever their networks make of it, no request for the slot is ever sent to any node, and
it keeps what the node held there at the start. -/
theorem reserved_slots_kept {sh : Shell cfg} {freed : Packet cfg → Packet cfg}
    {stores : UInt16 → Store} {is : List (ShellsInput sh)} {s : Shells sh}
    (h : Reaches (Shells.next freed) (fun s i => i.Sized s) (Shells.start stores) is s)
    (node : UInt16) {slot : UInt8} (hslot : slot.toNat < sh.reservedProcSlots) :
    (s.nodes node).store slot = stores node slot ∧
      ∀ tx ∈ (s.nodes node).transactions, tx.op.slot ≠ some slot := by
  let R : UInt8 → Prop := fun slot => sh.reservedProcSlots ≤ slot.toNat
  let P : ProcInstruction → Prop := fun ins => ins.instruction.OpFits cfg.sizeofEnum
  have hmakes : Shells.Makes cfg (fun _ => True) P := fun p hp => ⟨hp, fun _ => trivial⟩
  have hinv : s.Inv R (fun _ => True) P ∧ (s.nodes node).store slot = stores node slot := by
    refine h.invariant (P := fun _ s => s.Inv R (fun _ => True) P ∧
      (s.nodes node).store slot = stores node slot) ⟨.start, rfl⟩ ?_
    rintro is t i u ⟨ht, hstore⟩ hi hnext
    refine ⟨ht.next (fun _ hs => hs) hmakes hi ?_ ?_ hnext, ?_⟩
    · intro k input _ ins hins
      change ins.instruction.OpFits cfg.sizeofEnum
      rw [← sh.enum_eq]
      exact Editor.opFits_of_read hins
    · rintro memory q ⟨k, m, n, tx, s, -, -, htx, hop, hret, hq⟩
      have hwell := tx.result_wellFormed hret
      rw [hq] at hwell
      exact hwell
    · rcases Shells.node_of_next hnext node with hsame | ⟨j, hj, hstep⟩
      · rw [hsame, hstore]
      · rcases (ht.requested node).store hstep slot with hkept | ⟨hR, -⟩
        · rw [hkept, hstore]
        · exact absurd hslot (not_lt.mpr hR)
  refine ⟨hinv.2, ?_⟩
  intro tx htx hop
  rcases List.getElem?_of_mem htx with ⟨n, hn⟩
  exact absurd hslot (not_lt.mpr (((hinv.1.requested node).allowed n tx hn).slot slot hop))

/-! ## Procedures that can be listed -/

/-- A procedure that fits a packet and can be listed. -/
structure Proc.Listable (cfg : Config) (p : Proc) : Prop where
  wellFormed : p.WellFormed cfg
  fits : 2 + (Wire.procBytes cfg p).length ≤ cfg.cspBufferSize
  listed : (procList p).isSome = true

/-- An operator of an enumeration fits any enum. -/
theorem Instruction.OpInEnum.fits {n : Nat} (hn : 0 < n) {ins : Instruction}
    (h : ins.OpInEnum) : ins.OpFits n := by
  have hpow : 256 ^ 1 ≤ 256 ^ n := Nat.pow_le_pow_right (by omega) hn
  cases ins with
  | block paramA op paramB | ifelse paramA op paramB =>
      have hop : op.toNat < 6 := h
      exact lt_of_lt_of_le (by omega) hpow
  | unop param op result =>
      have hop : op.toNat < 6 := h
      exact lt_of_lt_of_le (by omega) hpow
  | binop paramA op paramB result =>
      have hop : op.toNat < 10 := h
      exact lt_of_lt_of_le (by omega) hpow
  | set | call | noop | unknown => trivial

/-- A procedure of known instructions with valid operators can be listed, if it fits. -/
theorem makes_listable :
    Shells.Makes cfg (Proc.Listable cfg) fun ins => ins.instruction.OpInEnum := by
  intro p hp
  have hwell : p.WellFormed cfg :=
    fun ins hins => ⟨(hp ins hins).1, (hp ins hins).2.fits cfg.enum_pos⟩
  refine ⟨hwell, fun hfits => ⟨hwell, hfits, ?_⟩⟩
  exact (isSome_procList_iff p).mpr fun ins hins => (hp ins hins).2

namespace Shells

variable {sh : Shell cfg} {freed : Packet cfg → Packet cfg} {s s' : Shells sh}
variable {i : ShellsInput sh}

/-- Every procedure, current, stored, sent or received, can be listed. -/
structure Valid (s : Shells sh) : Prop where
  inv : s.Inv (fun _ => True) (Proc.Listable cfg) fun ins => ins.instruction.OpInEnum
  stored : ∀ node slot, (s.nodes node).store.occupied slot = true →
    ((s.nodes node).store slot).Listable cfg
  answered : ∀ node, (s.nodes node).Answered (Proc.Listable cfg)

theorem Valid.next (hfreed : ∀ packet, (freed packet).byte 0 = packet.byte 0) (h : s.Valid)
    (hi : i.Works s) (hnext : s.next freed i = some s') : s'.Valid := by
  constructor
  · refine h.inv.next (fun _ _ => trivial) makes_listable hi.1 ?_ ?_ hnext
    · rintro k input rfl ins hins
      exact Editor.opInEnum_of_read hi.2 hins
    · rintro memory q ⟨k, node, n, tx, slot, rfl, hwaiting, htx, hop, hret, hq⟩
      rcases (h.answered node).pulled hfreed (fun _ hp => hp.wellFormed) (hi.2 _ hwaiting) htx hop
        hret with ⟨p, hp, harg⟩
      rw [harg] at hq
      obtain rfl : p = q := CallbackArg.procedure.inj hq
      exact fun ins hins => ⟨(hp.wellFormed ins hins).1,
        (isSome_procList_iff p).mp hp.listed ins hins⟩
  · intro node
    rcases node_of_next hnext node with hsame | ⟨j, -, hstep⟩
    · rw [hsame]
      exact h.stored node
    · exact (h.inv.requested node).stored (h.stored node) hstep
  · intro node
    rcases node_of_next hnext node with hsame | ⟨j, -, hstep⟩
    · rw [hsame]
      exact h.answered node
    · have hrequested := h.inv.requested node
      exact (h.answered node).next
        (fun n tx htx => ⟨(hrequested.allowed n tx htx).fits, hrequested.received n tx htx⟩)
        (h.stored node) hstep

end Shells

instance (op : ClientOp) : Decidable (op.Sized cfg) :=
  match op with
  | .push _ procedure => inferInstanceAs (Decidable (2 + (Wire.procBytes cfg procedure).length ≤ _))
  | .slots array => inferInstanceAs (Decidable (array.length = maxProcSlot + 1))
  | .del _ | .pull _ | .run _ => inferInstanceAs (Decidable True)

instance {sh : Shell cfg} (s : Shells sh) (i : ShellsInput sh) : Decidable (i.Sized s) :=
  match i with
  | .request k c argv slots _ _ => inferInstanceAs (Decidable
      (∀ r ∈ sh.request c argv slots (s.shells k).current, r.op.Sized cfg))
  | .edit .. | .finish .. | .serve .. | .read .. => inferInstanceAs (Decidable True)

instance {sh : Shell cfg} (s : Shells sh) (i : ShellsInput sh) : Decidable (i.Works s) :=
  match i with
  | .edit _ input => inferInstanceAs (Decidable (_ ∧ sh.operatorRecognised input = true))
  | .finish k _ => inferInstanceAs (Decidable
      (_ ∧ ∀ w ∈ (s.shells k).waiting, (s.nodes w.1).OwnReplies w.2))
  | .request .. | .serve .. | .read .. => inferInstanceAs (Decidable (_ ∧ True))

/-- A shell with one reserved slot. -/
def wideShell : Shell .small :=
  ⟨Editor.wide, 1, fun _ => 0, fun _ => 1000, fun host => UInt16.ofInt host, rfl⟩

/-- A packet that arrives with these bytes. -/
def arriving (bytes : List UInt8) : Packet cfg :=
  .ofBytes (bytes.take cfg.cspBufferSize) [] (List.length_take_le _ _)

/-- One shell creates a procedure and pushes it to slot 7, another one pulls it, and asks in
vain for slot 0 to be deleted. -/
def pushThenPull : List (ShellsInput wideShell) :=
  [.edit 0 ⟨.new Editor.freshMemory, []⟩, .edit 0 ⟨.noop, []⟩,
    .request 0 .push [.nil, decimal 7] [] (some pushSent) true,
    .serve 0 0 .working pushSent, .read 0 0 (arriving [0x85]),
    .finish 0 Editor.freshMemory,
    .request 1 .pull [.nil, decimal 7] [] (some pushSent) true,
    .serve 0 1 .working (arriving [0x82, 7]),
    .read 0 1 (arriving [0x83, 7, 1, 0, 0, 6]),
    .finish 1 Editor.freshMemory,
    .request 1 .del [.nil, decimal 0] [] (some pushSent) true]

/-- Every node has a procedure in slot 0. -/
def presetStore : Store := Function.update Store.init 0 noopProc

theorem exists_pushThenPull :
    ∃ s, Reaches (Shells.next id) (fun s i => i.Works s) (Shells.start fun _ => presetStore)
        pushThenPull s ∧
      ((s.shells 1).current.any fun p => p.list.length = 1) = true := by
  have hrun : ((pushThenPull.foldlM (guarded (Shells.next id) fun s i => i.Works s)
      (Shells.start fun _ => presetStore)).any fun s =>
        (s.shells 1).current.any fun p => p.list.length = 1) = true := by
    decide +kernel
  rw [Option.any_eq_true] at hrun
  rcases hrun with ⟨s, hs, hcurrent⟩
  exact ⟨s, .of_foldlM hs, hcurrent⟩

theorem reserved_slots_kept_pushThenPull :
    ∃ s : Shells wideShell, ((s.shells 1).current.any fun p => p.list.length = 1) = true ∧
      (s.nodes 0).store 0 = noopProc ∧ ∀ tx ∈ (s.nodes 0).transactions, tx.op.slot ≠ some 0 := by
  rcases exists_pushThenPull with ⟨s, hs, hcurrent⟩
  have hreserved : (0 : UInt8).toNat < wideShell.reservedProcSlots := Nat.one_pos
  exact ⟨s, hcurrent, reserved_slots_kept (hs.mono fun _ _ hi => hi.1) 0 hreserved⟩

end CspProc
