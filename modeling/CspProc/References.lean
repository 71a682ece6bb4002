import CspProc.Fetching

/-! # References

What a reference to a parameter means: `name` is a parameter, `name[k]` an
element of one, and any other string is none. `proc_param_scan_offset` reads the
index from the front, and `proc_fetch_param` cuts it off from the end, by the
length that its number has when it is printed.

`references_parsed_iff` says for which strings the two agree.
-/

namespace CspProc

variable {P F : Type}

/-! ## Decimal numbers -/

/-- A number in decimal, without sign or leading zeros. -/
def decimalBytes (k : Nat) : List UInt8 := (Nat.toDigits 10 k).map fun c => UInt8.ofNat c.toNat

theorem decimalLength_natCast (k : Nat) : decimalLength (k : Int) = (decimalBytes k).length := by
  have hpos : ¬ ((k : Int) < 0) := by omega
  rw [decimalLength, if_neg hpos, decimalBytes, List.length_map, Int.natAbs_natCast, Nat.add_zero]

theorem toNat_of_mem_toDigits {k : Nat} {c : Char} (hc : c ∈ Nat.toDigits 10 k) :
    48 ≤ c.toNat ∧ c.toNat ≤ 57 := by
  have hdigit := Nat.isDigit_of_mem_toDigits (by decide) (by decide) hc
  rw [Char.isDigit_iff_toNat] at hdigit
  exact hdigit

/-- The bytes of a decimal number are digits. -/
theorem digit_of_mem_decimalBytes {k : Nat} {b : UInt8} (hb : b ∈ decimalBytes k) :
    48 ≤ b.toNat ∧ b.toNat ≤ 57 := by
  rcases List.mem_map.mp hb with ⟨c, hc, rfl⟩
  have hdigit := toNat_of_mem_toDigits hc
  rw [UInt8.toNat_ofNat', Nat.mod_eq_of_lt (by omega)]
  exact hdigit

/-- Reading the digits gives the number back. -/
theorem foldl_decimalBytes (k : Nat) :
    (decimalBytes k).foldl (fun n b => 10 * n + (b.toNat - 48)) 0 = k := by
  have hread := Nat.ofDigitChars_ten_toDigits (n := k)
  rw [Nat.ofDigitChars_eq_foldl] at hread
  rw [decimalBytes, List.foldl_map]
  refine Eq.trans (List.foldl_ext _ _ 0 ?_) hread
  intro n c hc
  have hdigit := toNat_of_mem_toDigits hc
  rw [UInt8.toNat_ofNat', Nat.mod_eq_of_lt (by omega)]
  rfl

theorem decimalBytes_ne_nil (k : Nat) : decimalBytes k ≠ [] := by
  intro h
  exact Nat.toDigits_ne_nil (List.map_eq_nil_iff.mp h)

/-- A decimal number in front of a bracket is scanned as it is. -/
theorem scanInt_decimalBytes (k : Nat) : scanInt (decimalBytes k ++ [93]) = some (k : Int) := by
  rcases List.exists_cons_of_ne_nil (decimalBytes_ne_nil k) with ⟨b, rest, hcons⟩
  have hb : 48 ≤ b.toNat ∧ b.toNat ≤ 57 :=
    digit_of_mem_decimalBytes (k := k) (by rw [hcons]; exact List.mem_cons_self)
  -- the first digit is neither a space nor a sign
  have hspace : ¬ (b = 32 ∨ 9 ≤ b ∧ b ≤ 13) := by
    rintro (rfl | ⟨-, hle⟩)
    · exact absurd hb.1 (by decide)
    · have hle' : b.toNat ≤ 13 := hle
      omega
  have hskip : (decimalBytes k ++ [93]).dropWhile (fun c => decide (c = 32 ∨ 9 ≤ c ∧ c ≤ 13)) =
      decimalBytes k ++ [93] := by
    rw [hcons, List.cons_append, List.dropWhile_cons_of_neg (by simpa using hspace)]
  have hsign : scanSign (decimalBytes k ++ [93]) = (1, decimalBytes k ++ [93]) := by
    have hminus : b ≠ 45 := by
      rintro rfl
      exact absurd hb.1 (by decide)
    have hplus : b ≠ 43 := by
      rintro rfl
      exact absurd hb.1 (by decide)
    rw [hcons, List.cons_append, scanSign, if_neg hminus, if_neg hplus]
  have hdigits : (decimalBytes k ++ [93]).takeWhile (fun c => decide (48 ≤ c ∧ c ≤ 57)) =
      decimalBytes k := by
    rw [List.takeWhile_append_of_pos]
    · exact List.append_nil _
    · intro c hc
      exact decide_eq_true (digit_of_mem_decimalBytes hc)
  unfold scanInt
  rw [hskip, hsign]
  dsimp only
  rw [hdigits, foldl_decimalBytes, if_neg (by simp [decimalBytes_ne_nil])]
  rw [one_mul]

/-! ## The grammar -/

/-- A string is the reference to element `k` of `name`. -/
structure IndexedBy (ref name : List UInt8) (k : Nat) : Prop where
  named : name ≠ []
  plain : openBracket ∉ name
  fits : k < 2 ^ 31
  eq : ref = name ++ openBracket :: (decimalBytes k ++ [93])

/-- A string from its first bracket on. -/
def indexPart (ref : List UInt8) : List UInt8 := ref.dropWhile fun c => c ≠ openBracket

theorem takeWhile_of_plain {s : List UInt8} (h : openBracket ∉ s) :
    s.takeWhile (fun c => decide (c ≠ openBracket)) = s := by
  rw [List.takeWhile_eq_self_iff]
  intro c hc
  apply decide_eq_true
  rintro rfl
  exact h hc

theorem dropWhile_of_plain {s : List UInt8} (h : openBracket ∉ s) :
    s.dropWhile (fun c => decide (c ≠ openBracket)) = [] := by
  rw [List.dropWhile_eq_nil_iff]
  intro c hc
  apply decide_eq_true
  rintro rfl
  exact h hc

theorem indexPart_append {name rest : List UInt8} (h : openBracket ∉ name) :
    indexPart (name ++ openBracket :: rest) = openBracket :: rest := by
  unfold indexPart
  rw [List.dropWhile_append, dropWhile_of_plain h]
  rfl

/-- The first byte of a token is not skipped. -/
theorem skip_of_plain {name : List UInt8} (hname : name ≠ []) (h : openBracket ∉ name)
    (s : List UInt8) :
    (name ++ s).dropWhile (fun c => decide (c = openBracket)) = name ++ s := by
  rcases List.exists_cons_of_ne_nil hname with ⟨b, tail, rfl⟩
  have hb : b ≠ openBracket := by
    rintro rfl
    exact h List.mem_cons_self
  rw [List.cons_append, List.dropWhile_cons_of_neg (by simpa using hb)]

/-- A token is what stands in front of the next bracket. -/
theorem strtok_bracket {name : List UInt8} (hname : name ≠ []) (h : openBracket ∉ name)
    (rest : List UInt8) : strtok (name ++ openBracket :: rest) = (some name, rest) := by
  have htake : (name ++ openBracket :: rest).takeWhile (fun c => decide (c ≠ openBracket)) =
      name := by
    rw [List.takeWhile_append, takeWhile_of_plain h, if_pos rfl]
    exact List.append_nil _
  have hdrop : (name ++ openBracket :: rest).dropWhile (fun c => decide (c ≠ openBracket)) =
      openBracket :: rest := indexPart_append h
  unfold strtok
  rw [skip_of_plain hname h]
  dsimp only
  rw [htake, hdrop, if_neg (by simp)]
  rfl

/-- Without one it is the whole string. -/
theorem strtok_plain {name : List UInt8} (hname : name ≠ []) (h : openBracket ∉ name) :
    strtok name = (some name, []) := by
  have hskip := skip_of_plain hname h []
  rw [List.append_nil] at hskip
  unfold strtok
  rw [hskip]
  dsimp only
  rw [takeWhile_of_plain h, dropWhile_of_plain h, if_neg (by simpa using hname)]
  rfl

/-- A string without brackets has no index. -/
theorem scanOffset_of_plain {overlong : Int → Int} {ref : List UInt8} (h : openBracket ∉ ref) :
    procParamScanOffset overlong ref = -1 := by
  have hrest : (strtok ref).2 = [] := by
    by_cases hnil : ref = []
    · rw [hnil]
      rfl
    · rw [strtok_plain hnil h]
  unfold procParamScanOffset
  rw [hrest]
  rfl

/-- The index of an element is read as it is written, and has the length that is
cut off. -/
theorem scanOffset_of_indexed {overlong : Int → Int} {ref name : List UInt8} {k : Nat}
    (h : IndexedBy ref name k) : procParamScanOffset overlong ref = k := by
  have hplain : openBracket ∉ decimalBytes k ++ [93] := by
    intro hmem
    rcases List.mem_append.mp hmem with hdigit | hlast
    · exact absurd (digit_of_mem_decimalBytes hdigit) (by decide)
    · exact absurd hlast (by decide)
  have hfits := h.fits
  rw [h.eq]
  unfold procParamScanOffset
  rw [strtok_bracket h.named h.plain, strtok_plain (by simp) hplain]
  dsimp only
  rw [scanInt_decimalBytes]
  dsimp only
  rw [if_pos (by omega)]

theorem cutIndex_of_indexed {ref name : List UInt8} {k : Nat} (h : IndexedBy ref name k) :
    cutIndex k ref = some name := by
  have hneg : ¬ ((k : Int) = -1) := by omega
  have hlen : ref.length = name.length + (decimalLength k + 2) := by
    rw [h.eq, decimalLength_natCast]
    simp only [List.length_append, List.length_cons, List.length_nil]
  rw [cutIndex, if_neg hneg, if_pos (by omega), hlen, Nat.add_sub_cancel, h.eq, List.take_left]

/-- An element's reference can be put together again from what is read in it. -/
theorem eq_of_indexed {overlong : Int → Int} {ref name : List UInt8} {k : Nat}
    (h : IndexedBy ref name k) :
    ref = (cutIndex (procParamScanOffset overlong ref) ref).getD ref ++
      openBracket :: (decimalBytes (procParamScanOffset overlong ref).toNat ++ [93]) := by
  rw [scanOffset_of_indexed h, cutIndex_of_indexed h]
  exact h.eq

/-! ## The cut -/

/-- What stands in front of the first bracket, and the bracket. -/
theorem exists_front (ref : List UInt8) : ∃ front, openBracket ∉ front ∧
    front ++ indexPart ref = ref ∧ ∀ c rest, indexPart ref = c :: rest → c = openBracket := by
  refine ⟨ref.takeWhile fun c => decide (c ≠ openBracket), ?_, List.takeWhile_append_dropWhile, ?_⟩
  · intro hmem
    have hne := List.mem_takeWhile_imp hmem
    simp at hne
  · intro c rest hpart
    have hhead := List.head?_dropWhile_not (fun c => decide (c ≠ openBracket)) ref
    unfold indexPart at hpart
    rw [hpart] at hhead
    simpa using hhead

/-- A string is cut behind its first bracket exactly when less is cut off than
stands from there on. -/
theorem openBracket_mem_take_iff {ref : List UInt8} (n : Nat) :
    openBracket ∈ ref.take (ref.length - n) ↔ n < (indexPart ref).length := by
  rcases exists_front ref with ⟨front, hfront, hsplit, hhead⟩
  have hlen : ref.length = front.length + (indexPart ref).length := by
    rw [← List.length_append, hsplit]
  constructor
  · intro hmem
    by_contra hle
    rw [← hsplit, List.take_append_of_le_length (by rw [hsplit]; omega)] at hmem
    exact hfront (List.mem_of_mem_take hmem)
  · intro hlt
    cases hpart : indexPart ref with
    | nil =>
        rw [hpart] at hlt
        exact absurd hlt (Nat.not_lt_zero _)
    | cons c rest =>
        have href : ref = front ++ openBracket :: rest := by
          rw [← hsplit, hpart, hhead c rest hpart]
        apply List.mem_of_getElem? (i := front.length)
        rw [List.getElem?_take_of_lt (by omega), href, List.getElem?_append_right (Nat.le_refl _),
          Nat.sub_self, List.getElem?_cons_zero]

/-- The index is cut off as it stands: the string is an element's reference, or
has no index that can be read, or less is cut off than stands from its first
bracket on, which then stays in the name. -/
def ParsedWhen (overlong : Int → Int) (ref : List UInt8) : Prop :=
  (∃ name k, IndexedBy ref name k) ∨ procParamScanOffset overlong ref = -1 ∨
    decimalLength (procParamScanOffset overlong ref) + 2 < (indexPart ref).length

/-- What is left of a string after the cut. -/
theorem cutIndex_of_le {ref : List UInt8} {offset : Int} (hoffset : offset ≠ -1)
    (hle : decimalLength offset + 2 ≤ ref.length) :
    cutIndex offset ref = some (ref.take (ref.length - (decimalLength offset + 2))) := by
  rw [cutIndex, if_neg hoffset, if_pos hle]

theorem length_indexPart_le (ref : List UInt8) : (indexPart ref).length ≤ ref.length :=
  List.length_dropWhile_le _ _

/-- The copy is cut within its bounds. -/
theorem ParsedWhen.inside {overlong : Int → Int} {ref : List UInt8} (h : ParsedWhen overlong ref) :
    (cutIndex (procParamScanOffset overlong ref) ref).isSome = true := by
  rcases h with ⟨name, k, hindexed⟩ | hnone | hlt
  · rw [scanOffset_of_indexed hindexed, cutIndex_of_indexed hindexed]
    rfl
  · rw [hnone]
    rfl
  · by_cases hnone : procParamScanOffset overlong ref = -1
    · rw [hnone]
      rfl
    · have hle := length_indexPart_le ref
      rw [cutIndex_of_le hnone (by omega)]
      rfl

/-- A string that is no reference keeps a bracket in its name. -/
theorem ParsedWhen.bracket_kept {overlong : Int → Int} {ref : List UInt8}
    (h : ParsedWhen overlong ref) (hbracket : openBracket ∈ ref)
    (hother : ¬ ∃ name k, IndexedBy ref name k) :
    openBracket ∈ (cutIndex (procParamScanOffset overlong ref) ref).getD ref := by
  rcases h with hindexed | hnone | hlt
  · exact absurd hindexed hother
  · rw [hnone]
    exact hbracket
  · by_cases hnone : procParamScanOffset overlong ref = -1
    · rw [hnone]
      exact hbracket
    · have hle := length_indexPart_le ref
      rw [cutIndex_of_le hnone (by omega)]
      exact (openBracket_mem_take_iff _).mpr hlt

/-! ## What a reference means -/

namespace Host

/-- The parameters match by their names, which have no brackets. -/
structure PlainNames (h : Host P F) (node : UInt16) (s : P) : Prop where
  strmatch_iff : ∀ name pattern, h.lib.strmatch name pattern = true ↔ name = pattern
  ifaces_le : h.ifaces.length ≤ 9
  plain : ∀ params, h.searched node s = some params →
    ∀ param ∈ params, openBracket ∉ param.name.bytes

/-- An index as libparam takes it; none is -1. -/
def offsetOf : Option Nat → Int
  | none => -1
  | some k => k

/-- A reference is looked up under a name, and read and written at an index, or
read at the beginning and written as a whole without one. -/
structure Addresses (h : Host P F) (ref : CStr) (name : List UInt8) (index : Option Nat)
    (node : UInt16) (s : P) : Prop where
  lookedUp : h.baseName ref = name
  asked : ∀ param, h.fetched ref node s = some param → h.Asked name node param
  offset : h.scanOffset ref = offsetOf index
  read : ∀ param state, param.type ≠ .data → param.type ≠ .invalid →
    ((h.parseParamToOperand param (h.scanOffset ref)).run state).value =
      parseValue h.fl param.type (h.lib.paramGet param (index.getD 0) state)
  written : ∀ param bytes, h.setLocal param (h.scanOffset ref) bytes =
    match index with
    | none => h.paramSetFrom param bytes param.arraySize 0
    | some k => h.paramSetFrom param bytes 1 k

/-- A string is resolved as the grammar of references says. -/
structure ParsedRight (h : Host P F) (ref : CStr) (node : UInt16) (s : P) : Prop where
  /-- The copy is not written outside of its bounds. -/
  inside : (cutIndex (h.scanOffset ref) ref.bytes).isSome = true
  plain : openBracket ∉ ref.bytes → h.Addresses ref ref.bytes none node s
  indexed : ∀ name k, IndexedBy ref.bytes name k → h.Addresses ref name (some k) node s
  other : openBracket ∈ ref.bytes → (¬ ∃ name k, IndexedBy ref.bytes name k) →
    h.fetched ref node s = none

variable {h : Host P F} {ref : CStr} {node : UInt16} {s : P}

/-- What is scanned decides where a parameter is read and written. -/
theorem addresses_of_offset {name : List UInt8} {index : Option Nat}
    (hbase : h.baseName ref = name) (hoffset : h.scanOffset ref = offsetOf index)
    (hasked : ∀ param, h.fetched ref node s = some param → h.Asked name node param) :
    h.Addresses ref name index node s where
  lookedUp := hbase
  asked := hasked
  offset := hoffset
  read := by
    intro param state hdata hinvalid
    have hsupported : ¬ (param.type = .data ∨ param.type = .invalid) := by
      rintro (hd | hi)
      · exact hdata hd
      · exact hinvalid hi
    rw [hoffset, parseParamToOperand, if_neg hsupported]
    cases index with
    | none => rfl
    | some k => rfl
  written := by
    intro param bytes
    rw [hoffset]
    cases index with
    | none => rfl
    | some k =>
        have hpos : ¬ ((k : Int) < 0) := by omega
        show h.setLocal param (k : Int) bytes = _
        rw [setLocal, if_neg hpos]
        rfl

/-- Where the cut is right, a string is resolved as it should be, up to the
guard of the search. -/
theorem parsedRight_iff (hwhen : ParsedWhen h.overlong ref.bytes) (hnames : h.PlainNames node s) :
    h.ParsedRight ref node s ↔ h.SearchEnds (h.baseName ref) node s := by
  constructor
  · intro hright
    apply searchEnds_of_asked hnames.ifaces_le
    intro param hf
    by_cases hplain : openBracket ∉ ref.bytes
    · have haddresses := hright.plain hplain
      rw [haddresses.lookedUp]
      exact haddresses.asked param hf
    · by_cases hindexed : ∃ name k, IndexedBy ref.bytes name k
      · rcases hindexed with ⟨name, k, hindexed⟩
        have haddresses := hright.indexed name k hindexed
        rw [haddresses.lookedUp]
        exact haddresses.asked param hf
      · -- nothing is fetched for another string
        rw [hright.other (not_not.mp hplain) hindexed] at hf
        cases hf
  · intro hends
    have hasked : ∀ param, h.fetched ref node s = some param →
        h.Asked (h.baseName ref) node param :=
      fun _ hf => asked_of_fetched hnames.ifaces_le hends hf
    constructor
    · exact hwhen.inside
    · intro hplain
      have hoffset : h.scanOffset ref = -1 := scanOffset_of_plain hplain
      have hbase : h.baseName ref = ref.bytes := by
        rw [baseName, hoffset]
        rfl
      rw [hbase] at hasked
      exact addresses_of_offset hbase hoffset hasked
    · intro name k hindexed
      have hoffset : h.scanOffset ref = k := scanOffset_of_indexed hindexed
      have hbase : h.baseName ref = name := by
        rw [baseName, hoffset, cutIndex_of_indexed hindexed]
        rfl
      rw [hbase] at hasked
      exact addresses_of_offset hbase hoffset hasked
    · intro hbracket hother
      by_contra hsome
      rcases Option.ne_none_iff_exists'.mp hsome with ⟨param, hf⟩
      rcases fetched_cases hnames.ifaces_le hf with ⟨params, hs, hmem, -⟩
      -- the parameter would have a bracket in its name
      have hname := (hnames.strmatch_iff _ _).mp (hasked param hf).1
      apply hnames.plain params hs param hmem
      rw [hname]
      exact hwhen.bracket_kept hbracket hother

/-- A node whose `sscanf` makes of overlong numbers what is given. -/
def hostScanning (overlong : Int → Int) : Host (List (Param × UInt64)) Float :=
  { hostOne.toHost with overlong := overlong }

/-- A number of this node that is called like a part of a string. -/
def numberCalled (ref : CStr) (n : Nat) : Param :=
  numberParam ⟨ref.bytes.take n, fun h => ref.nulFree (List.mem_of_mem_take h)⟩ .int64

/-- A list of numbers of this node is searched as it is. -/
theorem plainNames_hostScanning {overlong : Int → Int} {s : List (Param × UInt64)}
    (hplain : ∀ param ∈ s.map Prod.fst, openBracket ∉ param.name.bytes) :
    (hostScanning overlong).PlainNames 0 s where
  strmatch_iff := fun name pattern => beq_iff_eq
  ifaces_le := hostOne_ifaces
  plain := by
    intro params hs
    rw [← Option.some.inj hs]
    exact hplain

/-- Where the cut takes the bracket with it, there may be a parameter that is called
like what is left. -/
theorem misread_of_cut {overlong : Int → Int} (hbracket : openBracket ∈ ref.bytes)
    (hother : ¬ ∃ name k, IndexedBy ref.bytes name k)
    (hoffset : procParamScanOffset overlong ref.bytes ≠ -1) {kept : Nat}
    (hinside : decimalLength (procParamScanOffset overlong ref.bytes) + 2 ≤ ref.bytes.length)
    (hkept : kept = ref.bytes.length -
      (decimalLength (procParamScanOffset overlong ref.bytes) + 2))
    (hname : openBracket ∉ ref.bytes.take kept) :
    ∃ s, (hostScanning overlong).PlainNames 0 s ∧
      (hostScanning overlong).SearchEnds ((hostScanning overlong).baseName ref) 0 s ∧
      ¬ (hostScanning overlong).ParsedRight ref 0 s := by
  -- one parameter, which is called what the cut leaves of the reference
  let param := numberCalled ref kept
  have hs : (hostScanning overlong).searched 0 [(param, 0)] = some [param] := rfl
  refine ⟨[(param, 0)], plainNames_hostScanning ?_, ?_, ?_⟩
  · intro q hq
    rw [List.mem_singleton.mp hq]
    exact hname
  · intro params hparams
    rw [hs] at hparams
    rw [← Option.some.inj hparams]
    exact .inl (Nat.le_of_ble_eq_true rfl)
  · intro hright
    have hbase : (hostScanning overlong).baseName ref = param.name.bytes := by
      show (cutIndex (procParamScanOffset overlong ref.bytes) ref.bytes).getD _ = _
      rw [cutIndex_of_le hoffset hinside, ← hkept]
      rfl
    have hasked : (hostScanning overlong).Asked ((hostScanning overlong).baseName ref) 0
        param := by
      constructor
      · rw [hbase]
        exact beq_self_eq_true _
      · exact .inl rfl
    have hifaces : (hostScanning overlong).ifaces.length ≤ 9 := hostOne_ifaces
    rcases fetched_of_asked hifaces hs (List.mem_singleton_self param) hasked with
      ⟨first, hfirst, -, hfetched⟩
    rw [List.mem_singleton.mp (List.mem_of_mem_take hfirst), hright.other hbracket hother]
      at hfetched
    cases hfetched

/-- Where the cut is wrong, it is outside of the copy, or it takes the bracket with
it. -/
theorem misread_of_not_parsedWhen {overlong : Int → Int} (hwhen : ¬ ParsedWhen overlong ref.bytes) :
    ∃ s, (hostScanning overlong).PlainNames 0 s ∧
      (hostScanning overlong).SearchEnds ((hostScanning overlong).baseName ref) 0 s ∧
      ¬ (hostScanning overlong).ParsedRight ref 0 s := by
  rcases not_or.mp hwhen with ⟨hother, hwrong⟩
  rcases not_or.mp hwrong with ⟨hoffset, hlong⟩
  have hbracket : openBracket ∈ ref.bytes := by
    by_contra hplain
    exact hoffset (scanOffset_of_plain hplain)
  by_cases hinside : decimalLength (procParamScanOffset overlong ref.bytes) + 2 ≤ ref.bytes.length
  · refine misread_of_cut hbracket hother hoffset hinside rfl ?_
    intro hmem
    exact hlong ((openBracket_mem_take_iff _).mp hmem)
  · -- the cut is made in front of the copy
    refine ⟨[], plainNames_hostScanning nofun, ?_, ?_⟩
    · intro params hparams
      rw [← Option.some.inj hparams]
      exact .inl (Nat.zero_le _)
    · intro hright
      have hcut : cutIndex (procParamScanOffset overlong ref.bytes) ref.bytes = none := by
        rw [cutIndex, if_neg hoffset, if_neg hinside]
      have hnone : (cutIndex (procParamScanOffset overlong ref.bytes) ref.bytes).isSome = true :=
        hright.inside
      rw [hcut] at hnone
      cases hnone

/-- In every list, references are resolved as their grammar says, exactly up to
the guard of the search, if and only if the index of the string is cut off as it
stands. -/
theorem references_parsed_iff (overlong : Int → Int) (ref : CStr) :
    (∀ (P F : Type) (h : Host P F) (node : UInt16) (s : P), h.overlong = overlong →
      h.PlainNames node s → (h.ParsedRight ref node s ↔ h.SearchEnds (h.baseName ref) node s)) ↔
      ParsedWhen overlong ref.bytes := by
  constructor
  · intro hright
    by_contra hwhen
    rcases misread_of_not_parsedWhen hwhen with ⟨s, hnames, hends, hwrong⟩
    exact hwrong ((hright _ _ (hostScanning overlong) 0 s rfl hnames).mpr hends)
  · intro hwhen P F h node s hoverlong hnames
    rw [← hoverlong] at hwhen
    exact parsedRight_iff hwhen hnames

/-- `kl[5`, `k[5x` and `k[-5]`. -/
def misread : List CStr :=
  [.ofBytes [107, 108, 91, 53] rfl, .ofBytes [107, 91, 53, 120] rfl,
    .ofBytes [107, 91, 45, 53, 93] rfl]

/-- `k[2147483648`. -/
def overlongIndex : CStr := .ofBytes [107, 91, 50, 49, 52, 55, 52, 56, 51, 54, 52, 56] rfl

/-- Strings that are no references are resolved to `k`, and the copy of a long
number is cut in front of its first byte. -/
theorem misread_resolved :
    hostOne.toHost.PlainNames 0 smallNumbers ∧
      (∀ ref ∈ misread, ¬ hostOne.toHost.ParsedRight ref 0 smallNumbers) ∧
      ¬ hostOne.toHost.ParsedRight overlongIndex 0 smallNumbers := by
  have hnames : (hostScanning cInt).PlainNames 0 smallNumbers :=
    plainNames_hostScanning (by decide +kernel)
  refine ⟨hnames, ?_, ?_⟩
  · intro ref href hright
    have hfetched : ∀ ref ∈ misread, hostOne.toHost.fetched ref 0 smallNumbers =
        some (numberParam nameK .int64) := by
      decide +kernel
    have hother : ¬ ∃ name k, IndexedBy ref.bytes name k := by
      rintro ⟨name, k, hindexed⟩
      have hall : ∀ ref ∈ misread, ref.bytes ≠ (cutIndex (procParamScanOffset cInt ref.bytes)
          ref.bytes).getD ref.bytes ++ openBracket ::
            (decimalBytes (procParamScanOffset cInt ref.bytes).toNat ++ [93]) := by
        decide +kernel
      exact hall ref href (eq_of_indexed hindexed)
    have hbracket : ∀ ref ∈ misread, openBracket ∈ ref.bytes := by
      decide
    have hnone := hright.other (hbracket ref href) hother
    rw [hfetched ref href] at hnone
    cases hnone
  · intro hright
    exact absurd hright.inside (by decide +kernel)

end Host

end CspProc
