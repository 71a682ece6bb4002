import CspProc.Operand
import CspProc.Lib.Traced

/-! # Parameters

How a procedure reaches parameters: `proc_param_scan_offset`,
`proc_fetch_param`, `fetch_operand_param_pair` and `proc_set_param`, as traced
programs that report what they access and on which node.

libparam and the network are not part of the source: `Libparam` is what the
code calls, over an arbitrary type of states, in which every other task and
every other node may have a part. An access outside of an object is reported as
`stray`; what a C program does after one is undefined, and the model goes on as
if it had hit nothing.
-/

namespace CspProc

/-- `param_t`, as far as the code reads it. -/
structure Param where
  name : CStr
  node : UInt16
  type : ParamType
  readonly : Bool
  arraySize : Nat
  addr : UInt64
deriving DecidableEq, Repr

/-- What the code does to parameters, and to which node it talks. -/
inductive Access where
  /-- `param_list_download`. -/
  | download (node : UInt16)
  /-- `param_pull_single`: the local copy of a parameter is brought up to date. -/
  | pull (param : Param) (node : UInt16)
  /-- The value of a parameter is read. -/
  | get (param : Param)
  /-- `param_set`. -/
  | set (param : Param)
  /-- `param_push_single`. -/
  | push (param : Param) (node : UInt16)
  /-- The guard against endless loops ended a search on a node at a parameter. -/
  | exhausted (param : Param) (node : UInt16)
  /-- An access outside of an object. -/
  | stray
deriving DecidableEq, Repr

/-- The functions of libparam that the code calls. A negative number is a
failure; a value is the bytes that stand for it in memory. -/
structure Libparam (P : Type) where
  /-- The parameters in the order of `param_list_iterate`. -/
  params : P → List Param
  strmatch : List UInt8 → List UInt8 → Bool
  paramListDownload : UInt16 → P → Int × P
  paramPullSingle : Param → Int → UInt16 → P → Int × P
  paramPushSingle : Param → Int → List UInt8 → UInt16 → P → Int × P
  paramGet : Param → Nat → P → UInt64
  paramSet : Param → Nat → List UInt8 → P → P
  paramStrToValue : ParamType → CStr → Option (List UInt8)
  /-- `*param->timestamp = 0`. -/
  clearTimestamp : Param → P → P
  /-- The string that starts at an address. -/
  text : P → UInt64 → CStr
  /-- The values of the enumerators of `param_type_e`. -/
  typeCode : ParamType → Nat

/-! ## References -/

/-- The character `[`. -/
def openBracket : UInt8 := 91

/-- `strtok_r` with the delimiter `[`: a token, if there is one, and what is left. -/
def strtok (s : List UInt8) : Option (List UInt8) × List UInt8 :=
  let s := s.dropWhile fun c => c = openBracket
  if s.isEmpty then (none, [])
  else
    (some (s.takeWhile fun c => c ≠ openBracket), (s.dropWhile fun c => c ≠ openBracket).drop 1)

/-- The optional sign in front of a number. -/
def scanSign : List UInt8 → Int × List UInt8
  | [] => (1, [])
  | c :: s => if c = 45 then (-1, s) else if c = 43 then (1, s) else (1, c :: s)

/-- `sscanf` with `%d`, before the number is stored. -/
def scanInt (s : List UInt8) : Option Int :=
  let (sign, s) := scanSign (s.dropWhile fun c => c = 32 ∨ 9 ≤ c ∧ c ≤ 13)
  let digits := s.takeWhile fun c => 48 ≤ c ∧ c ≤ 57
  if digits.isEmpty then none
  else some (sign * (digits.foldl (fun n c => 10 * n + (c.toNat - 48)) 0 : Nat))

/-- The number of characters of a number printed with `%d`. -/
def decimalLength (k : Int) : Nat :=
  (Nat.toDigits 10 k.natAbs).length + if k < 0 then 1 else 0

/-- `proc_param_scan_offset`. The language leaves open what `sscanf` stores for
a number that no `int` holds; that is `overlong`. -/
def procParamScanOffset (overlong : Int → Int) (arg : List UInt8) : Int :=
  match (strtok (strtok arg).2).1 with
  | none => -1
  | some token =>
      match scanInt token with
      | none => -1
      | some k => if -2 ^ 31 ≤ k ∧ k < 2 ^ 31 then k else overlong k

/-- The copy of a parameter's name after its index is cut off, unless the cut is
made in front of the copy. -/
def cutIndex (offset : Int) (name : List UInt8) : Option (List UInt8) :=
  if offset = -1 then some name
  else if decimalLength offset + 2 ≤ name.length then
    some (name.take (name.length - (decimalLength offset + 2)))
  else none

/-! ## The search -/

/-- The local variables of the scan of the interface list. -/
structure LocalAddrs where
  addrs : List Int
  isRemoteParam : Bool
  overrun : Bool
deriving DecidableEq, Repr

/-- The loop over the interfaces. The array has ten entries, and the first
address is written to its second entry. -/
def scanIfaces (node : UInt16) : List UInt16 → Nat → LocalAddrs → LocalAddrs
  | [], _, l => l
  | addr :: ifaces, ifaceIdx, l =>
      if ifaceIdx < 10 then
        scanIfaces node ifaces (ifaceIdx + 1)
          { addrs := l.addrs.set (ifaceIdx + 1) addr.toNat
            isRemoteParam := l.isRemoteParam && addr ≠ node
            overrun := l.overrun || 10 ≤ ifaceIdx + 1 }
      else l

def localAddrs (node : UInt16) (ifaces : List UInt16) : LocalAddrs :=
  scanIfaces node ifaces 0 ⟨-1 :: List.replicate 9 0, node ≠ 0, false⟩

/-- The bound of `inf_loop_guard`. -/
def infLoopGuard : Nat := 10000

/-- How the loop over the parameters ends: at the end of the list, at a
parameter that is returned as it is or only once it is pulled, or by the guard. -/
inductive Lookup where
  | absent
  | found (param : Param)
  | remote (param : Param)
  | exhausted (param : Param)
deriving DecidableEq, Repr

/-- The loop over the parameters. -/
def lookup (strmatch : Param → Bool) (node : UInt16) (addrs : List Int) :
    Nat → List Param → Lookup
  | _, [] => .absent
  | loopGuard, param :: params =>
      if loopGuard < infLoopGuard then
        if strmatch param then
          if param.node ≠ node then
            if (addrs.contains (node.toNat : Int) && param.node = 0) = true then .found param
            else lookup strmatch node addrs (loopGuard + 1) params
          else if param.node = 0 then .found param
          else .remote param
        else lookup strmatch node addrs (loopGuard + 1) params
      else .exhausted param

/-! ## Reaching parameters -/

/-- What the handlers run on: libparam, the arithmetic, the addresses of the
interfaces, what `sscanf` makes of overlong numbers, and `PARAM_ACK_ON_PUSH`. -/
structure Host (P F : Type) where
  lib : Libparam P
  fl : FloatOps F
  ifaces : List UInt16
  overlong : Int → Int
  ackOnPush : Bool

namespace Host

variable {P F : Type} (h : Host P F)

/-- The offset in a reference. -/
def scanOffset (name : CStr) : Int := procParamScanOffset h.overlong name.bytes

/-- The search of `proc_fetch_param` in libparam's list. -/
def search (name : CStr) (node : UInt16) (s : P) : Lookup :=
  let base := (cutIndex (h.scanOffset name) name.bytes).getD name.bytes
  lookup (fun param => h.lib.strmatch param.name.bytes base) node
    (localAddrs node h.ifaces).addrs 0 (h.lib.params s)

/-- The download of a remote node's list, with its result. -/
def downloadList (isRemoteParam : Bool) (node : UInt16) : Traced Access P Int :=
  if isRemoteParam then .act (.download node) (h.lib.paramListDownload node) else pure 0

/-- `proc_fetch_param`. -/
def procFetchParam (name : CStr) (node : UInt16) : Traced Access P (Option Param) := do
  let offset := h.scanOffset name
  .report (cutIndex offset name.bytes).isNone .stray
  let l := localAddrs node h.ifaces
  .report l.overrun .stray
  let remoteParams ← h.downloadList l.isRemoteParam node
  if remoteParams < 0 then
    return none
  else
    match ← Traced.look (h.search name node) with
    | .absent => return none
    | .found param => return some param
    | .remote param =>
        let ret ← Traced.act (.pull param node) (h.lib.paramPullSingle param offset node)
        return if ret < 0 then none else some param
    | .exhausted param =>
        .report true (.exhausted param node)
        return some param

/-- `parse_param_to_operand`. -/
def parseParamToOperand (param : Param) (offset : Int) : Traced Access P (Option (Operand F)) :=
  if param.type = .data ∨ param.type = .invalid then
    return none
  else do
    let raw ← Traced.act (.get param) fun s => (h.lib.paramGet param offset.toNat s, s)
    return parseValue h.fl param.type raw

/-- `fetch_operand_param_pair`. -/
def fetchOperandParamPair (name : CStr) (node : UInt16) :
    Traced Access P (Option (Operand F × Param)) := do
  match ← h.procFetchParam name node with
  | none => return none
  | some param =>
      let operand ← h.parseParamToOperand param (h.scanOffset name)
      return operand.map fun operand => (operand, param)

/-- The size of `valuebuf`. -/
def valuebufSize : Nat := 128

/-- What `proc_set_param` puts in `valuebuf`: a `value_str` comes before an operand. -/
def valueBytes (param : Param) (operand : Option (Operand F)) (valueStr : Option CStr) (s : P) :
    Option (List UInt8) :=
  match valueStr with
  | some valueStr => h.lib.paramStrToValue param.type valueStr
  | none => operand.bind (operandToValuebuf h.fl (h.lib.text s))

/-- `param_set` at `count` offsets from `i` on. -/
def paramSetFrom (param : Param) (valuebuf : List UInt8) : Nat → Nat → Traced Access P Unit
  | 0, _ => pure ()
  | count + 1, i => do
      Traced.act (.set param) fun s => ((), h.lib.paramSet param i valuebuf s)
      paramSetFrom param valuebuf count (i + 1)

/-- `param_set` at the offset of a reference, or in the whole array without one. -/
def setLocal (param : Param) (offset : Int) (valuebuf : List UInt8) : Traced Access P Unit :=
  if offset < 0 then h.paramSetFrom param valuebuf param.arraySize 0
  else h.paramSetFrom param valuebuf 1 offset.toNat

/-- The end of `proc_set_param`: the value is stored here or sent to the node. -/
def storeValue (param : Param) (offset : Int) (valuebuf : List UInt8) (node : UInt16) :
    Traced Access P Int :=
  if param.node = 0 then do
    h.setLocal param offset valuebuf
    return 0
  else do
    Traced.tick fun s => ((), h.lib.clearTimestamp param s)
    let ret ← Traced.act (.push param node) (h.lib.paramPushSingle param offset valuebuf node)
    return if (decide (ret < 0) && h.ackOnPush) = true then -1 else 0

/-- `proc_set_param`. -/
def procSetParam (name : CStr) (operand : Option (Operand F)) (valueStr : Option CStr)
    (node : UInt16) : Traced Access P Int :=
  if operand.isNone ∧ valueStr.isNone then
    return -1
  else do
    match ← h.procFetchParam name node with
    | none => return -1
    | some param =>
        if param.readonly then
          return -1
        else
          match ← Traced.look (h.valueBytes param operand valueStr) with
          | none => return -1
          | some bytes =>
              .report (decide (valuebufSize < bytes.length)) .stray
              h.storeValue param (h.scanOffset name)
                (bytes ++ List.replicate (valuebufSize - bytes.length) 0) node

end Host

end CspProc
