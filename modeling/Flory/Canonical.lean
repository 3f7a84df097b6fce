import Flory.Fallible
import Flory.JsonText
import Flory.OrderedMap
import Flory.Utf16
import Mathlib.Data.List.Lex
import Mathlib.Data.List.Pairwise
import Mathlib.Data.List.Sort

/-!
# Two Canonical Encoders

A tool view is named by a digest of its canonical JSON text, which the gateway writes in Go and
the engine writes again in TypeScript from what it parsed. This module has both encoders:
`writeCanonical` over the trees Go's decoder makes, whose numbers are literals, whose strings are
valid UTF-8 and whose objects are maps, and `canonicalize` over the values `JSON.parse` makes,
whose numbers are doubles and whose strings are sequences of UTF-16 units.

Go sorts the keys of an object by their bytes and TypeScript by their units; Go writes an integer
literal as it stands and TypeScript the number it was read as. `portable` says of a tree that
neither makes a difference.

## Main results

* `writeCanonical_eq`: Go writes the text of the tree with its members in the order of bytes.
* `canonicalize_eq`: TypeScript writes the text of the tree with its members in the order of units.
* `canonicalize_canonicalTree`: for a portable tree the two texts are one.
* `reencoded_iff`: reading a text back and encoding it again returns it exactly if the document is
  portable.
* `writeCanonical_identifies`: a text identifies its document.
-/

namespace Flory

open Except (error ok)
open Fallible (bind_eq_ok)
open JsonText (Tree Integral render renderString renderMember separated escape ascii
  isIntegerLiteral literalValue showInteger)

variable {β : Type} {text : List Char}

/-! ### The Go encoder -/

/-- What Go's decoder makes of a JSON text with `UseNumber`. The entries of an object are those
of the text, of which a later one replaces an earlier one. -/
abbrev GoValue : Type :=
  Tree String String

/-- The bytes of a Go string. -/
def goBytes (value : String) : List ℕ :=
  value.toList.flatMap fun symbol => (String.utf8EncodeChar symbol).map UInt8.toNat

/-- The members of a map, sorted by key as `sort.Strings` does. -/
def sortedMembers {β : Type} (entries : List (String × β)) : List (String × β) :=
  (OrderedMap.ofEntries entries).entries.insertionSort fun one other =>
    goBytes one.1 ≤ goBytes other.1

/-- A number in hexadecimal, padded with zeros to four digits. -/
def paddedHex (n : ℕ) : List Char :=
  (Nat.toDigits 16 n).leftpad 4 '0'

/-- A character as `writeString` writes it. -/
def writeSymbol : Char → List Char
  | '"' => ['\\', '"']
  | '\\' => ['\\', '\\']
  | '\x08' => ['\\', 'b']
  | '\x0c' => ['\\', 'f']
  | '\n' => ['\\', 'n']
  | '\r' => ['\\', 'r']
  | '\t' => ['\\', 't']
  | symbol => if symbol.toNat < 0x20 then '\\' :: 'u' :: paddedHex symbol.toNat else [symbol]

/-- `writeString`. What the decoder returns is valid UTF-8, so that it never fails. -/
def writeString (value : String) : List Char :=
  '"' :: value.toList.flatMap writeSymbol ++ ['"']

/-- A decimal digit. -/
def isDigitChar (symbol : Char) : Bool :=
  '0' ≤ symbol && symbol ≤ '9'

/-- The part of `integerPattern` after the sign. -/
def unsignedPattern : List Char → Bool
  | [] => false
  | digit :: rest => if digit = '0' then rest.isEmpty else isDigitChar digit && rest.all isDigitChar

/-- `integerPattern`. -/
def integerPattern : List Char → Bool
  | '-' :: rest => unsignedPattern rest
  | rest => unsignedPattern rest

/-- `writeCanonical`, and with it the text `Canonical` returns. -/
def writeCanonical : GoValue → Except String (List Char) :=
  Tree.fold
    { null := ok "null".toList
      bool := fun value => ok (if value then "true".toList else "false".toList)
      number := fun literal =>
        if integerPattern literal.toList then ok literal.toList
        else error ("canonical: \"" ++ literal ++
          "\" is not an integer; tool views are integer-valued")
      string := fun value => ok (writeString value)
      array := fun items => do
        let parts ← items.mapM id
        ok ('[' :: [','].intercalate parts ++ [']'])
      object := fun entries => do
        let parts ← (sortedMembers entries).mapM fun entry => do
          let text ← entry.2
          ok (writeString entry.1 ++ ':' :: text)
        ok ('\x7b' :: [','].intercalate parts ++ ['\x7d']) }

/-! ### The TypeScript encoder -/

/-- A JavaScript number, as far as `canonicalize` tells them apart: a safe integer other than
minus zero, minus zero, or any other number with the text it is shown as. -/
inductive JsNumber
  | safe (value : ℤ)
  | negativeZero
  | other (shown : List ℕ)

/-- What `JSON.parse` makes of a JSON text. Strings are sequences of UTF-16 units, and the keys of
an object are distinct. -/
abbrev JsValue : Type :=
  Tree (List ℕ) JsNumber

/-- `Number.MAX_SAFE_INTEGER`. -/
def maxSafeInteger : ℕ :=
  9007199254740991

/-- The number of a literal. An integer literal of the safe range is read exactly; `double` is
the number nearest to any other literal. -/
def jsNumber (double : List ℕ → JsNumber) (literal : List ℕ) : JsNumber :=
  if isIntegerLiteral literal then
    if literal = ascii "-0" then .negativeZero
    else if (literalValue literal).natAbs ≤ maxSafeInteger then .safe (literalValue literal)
    else double literal
  else double literal

/-- The value of a JSON document: of entries with one key the last one stays. -/
def jsValue (double : List ℕ → JsNumber) : Tree (List ℕ) (List ℕ) → JsValue :=
  Tree.fold
    { null := .null
      bool := .bool
      number := fun literal => .number (jsNumber double literal)
      string := .string
      array := .array
      object := fun entries => .object (OrderedMap.ofEntries entries).entries }

/-- `JSON.parse`. -/
def jsonParse (double : List ℕ → JsNumber) (text : List ℕ) : Option JsValue :=
  (JsonText.parse text).map (jsValue double)

/-- The symbols of a string, as `for … of` takes them: pairs of surrogates, and single units. -/
def symbols : List ℕ → List (List ℕ)
  | [] => []
  | [unit] => [[unit]]
  | high :: low :: rest =>
    if Utf16.isHigh high && Utf16.isLow low then [high, low] :: symbols rest
    else [high] :: symbols (low :: rest)

/-- `codePointAt(0)` of a symbol. -/
def codePoint : List ℕ → ℕ
  | [high, low] => 0x10000 + (high - 0xD800) * 0x400 + (low - 0xDC00)
  | symbol => symbol.headD 0

/-- `SHORT_ESCAPES`. -/
def shortEscapes : List ℕ → Option (List ℕ)
  | [0x22] => some [0x5C, 0x22]
  | [0x5C] => some [0x5C, 0x5C]
  | [0x08] => some [0x5C, 0x62]
  | [0x0C] => some [0x5C, 0x66]
  | [0x0A] => some [0x5C, 0x6E]
  | [0x0D] => some [0x5C, 0x72]
  | [0x09] => some [0x5C, 0x74]
  | _ => none

/-- A symbol as `canonicalizeString` writes it. -/
def canonicalizeSymbol (symbol : List ℕ) : List ℕ :=
  match shortEscapes symbol with
  | some short => short
  | none =>
    if symbol < [0x20] then ascii "\\u" ++ (paddedHex (codePoint symbol)).map Char.toNat
    else symbol

/-- `canonicalizeString`. -/
def canonicalizeString (value : List ℕ) : List ℕ :=
  0x22 :: (symbols value).flatMap canonicalizeSymbol ++ [0x22]

/-- `canonicalize`. No member of a parsed object is `undefined`, and the order in which
`Object.entries` lists distinct keys does not outlive the sort. -/
def canonicalize : JsValue → Except String (List ℕ) :=
  Tree.fold
    { null := ok (ascii "null")
      bool := fun value => ok (if value then ascii "true" else ascii "false")
      number := fun value =>
        match value with
        | .safe value => ok (showInteger value)
        | .negativeZero => ok (ascii "0")
        | .other shown => error ("canonicalize: " ++ String.ofList (Utf16.decode shown) ++
            " is not a safe integer; tool views are integer-valued")
      string := fun value => ok (canonicalizeString value)
      array := fun items => do
        let parts ← items.mapM id
        ok (0x5B :: separated parts ++ [0x5D])
      object := fun entries => do
        let sorted := entries.insertionSort fun one other => one.1 ≤ other.1
        let parts ← sorted.mapM fun entry => do
          let text ← entry.2
          ok (canonicalizeString entry.1 ++ 0x3A :: text)
        ok (0x7B :: separated parts ++ [0x7D]) }

/-! ### Strings -/

/-- The units of a Go string, once JavaScript has it. -/
def units (value : String) : List ℕ :=
  Utf16.encode value.toList

theorem units_injective : Function.Injective units := fun _ _ h =>
  String.toList_injective (Utf16.encode_injective h)

theorem escape_eq {unit : ℕ} (h : 0x5C < unit) : escape unit = [unit] := by
  have hshort : JsonText.shortEscape unit = none := by
    unfold JsonText.shortEscape
    split <;> first | rfl | omega
  rw [escape, hshort]
  exact if_neg (by omega)

theorem writeSymbol_eq {symbol : Char} (h : 0x5C < symbol.toNat) : writeSymbol symbol = [symbol] := by
  unfold writeSymbol
  split
  case h_8 => exact if_neg (by omega)
  all_goals exact absurd h (by decide)

/-- Both escape a character alike. -/
theorem encode_writeSymbol (symbol : Char) :
    Utf16.encode (writeSymbol symbol) = (Utf16.encodeChar symbol).flatMap escape := by
  by_cases h : 0x5C < symbol.toNat
  · rw [writeSymbol_eq h, Utf16.encode_cons, Utf16.encode_nil, List.append_nil]
    have hplain : ∀ unit ∈ Utf16.encodeChar symbol, escape unit = [unit] := by
      intro unit hunit
      refine escape_eq ?_
      rcases Utf16.mem_encodeChar hunit with rfl | hhigh
      · exact h
      · omega
    rw [List.flatMap_congr hplain, List.flatMap_singleton']
  · have hlow : ∀ n ≤ 0x5C, Utf16.encode (writeSymbol (Char.ofNat n)) =
        (Utf16.encodeChar (Char.ofNat n)).flatMap escape := by
      decide +kernel
    have hsym := hlow symbol.toNat (by omega)
    rwa [Char.ofNat_toNat] at hsym

/-- **Go writes a string as the text of its units.** -/
theorem encode_writeString (value : String) :
    Utf16.encode (writeString value) = renderString (units value) := by
  have hall : ∀ text : List Char, Utf16.encode (text.flatMap writeSymbol) =
      (Utf16.encode text).flatMap escape := by
    intro text
    induction text with
    | nil => rfl
    | cons symbol text ih =>
      rw [List.flatMap_cons, Utf16.encode_append, encode_writeSymbol, ih, Utf16.encode_cons,
        List.flatMap_append]
  rw [writeString, Utf16.encode_append, Utf16.encode_cons, hall]
  rfl

/-- A single unit is escaped alike. -/
theorem canonicalizeSymbol_unit (unit : ℕ) : canonicalizeSymbol [unit] = escape unit := by
  by_cases h : 0x5C < unit
  · have hshort : shortEscapes [unit] = none := by
      unfold shortEscapes
      split <;> first | rfl | (rename_i heq; cases heq; omega)
    have hspace : ¬ [unit] < [0x20] := by
      rw [List.cons_lt_cons_iff]
      simp only [List.not_lt_nil, and_false, or_false]
      omega
    rw [escape_eq h, canonicalizeSymbol, hshort]
    exact if_neg hspace
  · have hlow : ∀ n ≤ 0x5C, canonicalizeSymbol [n] = escape n := by decide +kernel
    exact hlow unit (by omega)

/-- A pair of surrogates is written as it is. -/
theorem canonicalizeSymbol_pair {high low : ℕ} (hhigh : Utf16.isHigh high = true)
    (hlow : Utf16.isLow low = true) :
    canonicalizeSymbol [high, low] = escape high ++ escape low := by
  simp only [Utf16.isHigh, Utf16.isLow, Bool.and_eq_true, decide_eq_true_eq] at hhigh hlow
  have hspace : ¬ [high, low] < [0x20] := by
    rw [List.cons_lt_cons_iff]
    simp only [List.not_lt_nil, and_false, or_false]
    omega
  have hshort : shortEscapes [high, low] = none := by
    unfold shortEscapes
    split <;> first | rfl | (rename_i heq; cases heq)
  rw [escape_eq (by omega), escape_eq (by omega), canonicalizeSymbol, hshort]
  exact if_neg hspace

/-- **TypeScript writes a string as its text.** -/
theorem canonicalizeString_eq (value : List ℕ) : canonicalizeString value = renderString value := by
  have hall : (symbols value).flatMap canonicalizeSymbol = value.flatMap escape := by
    fun_induction symbols value with
    | case1 => rfl
    | case2 unit => simp [canonicalizeSymbol_unit]
    | case3 high low rest hpair ih =>
      obtain ⟨hhigh, hlow⟩ := Bool.and_eq_true_iff.mp hpair
      rw [List.flatMap_cons, canonicalizeSymbol_pair hhigh hlow, ih]
      simp
    | case4 high low rest hpair ih =>
      rw [List.flatMap_cons, canonicalizeSymbol_unit, ih]
      simp
  rw [canonicalizeString, hall, renderString]

/-! ### The order of bytes -/

/-- Different strings have different bytes. -/
theorem goBytes_injective : Function.Injective goBytes := by
  intro one other h
  have hbyt : ∀ value : String,
      goBytes value = (value.toList.flatMap String.utf8EncodeChar).map UInt8.toNat := by
    intro value
    rw [goBytes, List.map_flatMap]
  rw [hbyt, hbyt] at h
  have hsame := (List.map_injective_iff.mpr fun _ _ => UInt8.toNat_inj.mp) h
  have hone := List.utf8Decode?_utf8Encode (l := one.toList)
  have hoth := List.utf8Decode?_utf8Encode (l := other.toList)
  rw [List.utf8Encode, hsame, ← List.utf8Encode, hoth] at hone
  have hlist : other.toList = one.toList := by
    simpa using Option.some.inj hone
  exact (String.toList_injective hlist).symm

instance {β : Type} : Std.Total fun one other : String × β => goBytes one.1 ≤ goBytes other.1 where
  total one other := le_total (goBytes one.1) (goBytes other.1)

instance {β : Type} : IsTrans (String × β) fun one other => goBytes one.1 ≤ goBytes other.1 where
  trans _ _ _ hone hother := le_trans hone hother

/-- Sorting the members looks at their keys only. -/
theorem sortedMembers_map {γ : Type} (f : β → γ) (entries : List (String × β)) :
    sortedMembers (entries.map (Prod.map id f)) = (sortedMembers entries).map (Prod.map id f) := by
  rw [sortedMembers, sortedMembers, OrderedMap.entries_ofEntries_map,
    List.map_insertionSort _ (fun one other : String × γ => goBytes one.1 ≤ goBytes other.1)]
  exact fun _ _ _ _ => Iff.rfl

theorem mem_of_mem_sortedMembers {entries : List (String × β)} {entry : String × β}
    (h : entry ∈ sortedMembers entries) : entry ∈ entries :=
  OrderedMap.mem_of_mem_entries_ofEntries ((List.mem_insertionSort _).mp h)

/-- **The keys of the sorted members increase strictly** by their bytes. -/
theorem pairwise_sortedMembers (entries : List (String × β)) :
    (sortedMembers entries).Pairwise fun one other => goBytes one.1 < goBytes other.1 := by
  have hsor : (sortedMembers entries).Pairwise fun one other =>
      goBytes one.1 ≤ goBytes other.1 := List.pairwise_insertionSort _ _
  have hdis : (sortedMembers entries).Pairwise fun one other => one.1 ≠ other.1 := by
    have hperm := (List.perm_insertionSort (fun one other : String × β =>
      goBytes one.1 ≤ goBytes other.1) (OrderedMap.ofEntries entries).entries).map Prod.fst
    exact List.pairwise_map.mp (hperm.nodup_iff.mpr (OrderedMap.ofEntries entries).nodup)
  refine (hsor.and hdis).imp fun {one other} h => ?_
  by_contra hnot
  exact h.2 (goBytes_injective (le_antisymm h.1 (not_lt.mp hnot)))

/-! ### What Go writes -/

/-- The tree whose text Go writes: every string in units, every map in the order of its keys'
bytes. -/
def canonicalTree : GoValue → Tree (List ℕ) (List ℕ) :=
  Tree.fold
    { null := .null
      bool := .bool
      number := fun literal => .number (units literal)
      string := fun value => .string (units value)
      array := .array
      object := fun entries => .object ((sortedMembers entries).map (Prod.map units id)) }

theorem canonicalTree_array (items : List GoValue) :
    canonicalTree (.array items) = .array (items.map canonicalTree) :=
  Tree.fold_array _ items

/-- The canonical tree of an object. -/
theorem canonicalTree_object (entries : List (String × GoValue)) :
    canonicalTree (.object entries) =
      .object ((sortedMembers entries).map (Prod.map units canonicalTree)) := by
  have hmem := sortedMembers_map canonicalTree entries
  rw [canonicalTree, Tree.fold_object]
  change Tree.object ((sortedMembers (entries.map (Prod.map id canonicalTree))).map _) = _
  rw [hmem, List.map_map]
  rfl

/-- Text of the basic plane is written unit by unit. -/
theorem encode_eq_map (h : ∀ symbol ∈ text, symbol.toNat < 0x10000) :
    Utf16.encode text = text.map Char.toNat := by
  induction text with
  | nil => rfl
  | cons symbol text ih =>
    rw [Utf16.encode_cons, Utf16.encodeChar_eq (h symbol List.mem_cons_self),
      ih fun other hoth => h other (List.mem_cons_of_mem _ hoth)]
    rfl

theorem isDigit_toNat {symbol : Char} : JsonText.isDigit symbol.toNat = isDigitChar symbol := by
  simp only [JsonText.isDigit, isDigitChar, Char.le_def, UInt32.le_iff_toNat_le]
  rfl

/-- The digits of Go's pattern are those of a JSON literal. -/
theorem isUnsignedLiteral_of_pattern (h : unsignedPattern text = true) :
    JsonText.isUnsignedLiteral (text.map Char.toNat) = true := by
  cases text with
  | nil => cases h
  | cons digit rest =>
    simp only [unsignedPattern] at h
    rw [List.map_cons, JsonText.isUnsignedLiteral]
    split at h
    · rename_i hzero
      obtain rfl : rest = [] := List.isEmpty_iff.mp h
      rw [hzero]
      rfl
    · rename_i hzero
      obtain ⟨hdig, hrest⟩ := Bool.and_eq_true_iff.mp h
      have hne : digit.toNat ≠ 0x30 := fun heq => hzero (Char.toNat_inj.mp heq)
      rw [if_neg hne, isDigit_toNat, hdig, Bool.true_and, List.all_map, List.all_eq_true]
      intro symbol hsym
      exact isDigit_toNat.trans (List.all_eq_true.mp hrest symbol hsym)

/-- **A number that Go accepts** is an integer literal of JSON. -/
theorem isIntegerLiteral_of_pattern (h : integerPattern text = true) :
    isIntegerLiteral (text.map Char.toNat) = true := by
  unfold integerPattern at h
  split at h
  · exact isUnsignedLiteral_of_pattern h
  rename_i hsign
  rw [isIntegerLiteral]
  · exact isUnsignedLiteral_of_pattern h
  intro rest hspl
  cases text with
  | nil => cases hspl
  | cons symbol text =>
    have hmin : symbol = '-' := Char.toNat_inj.mp (List.cons.inj hspl).1
    exact hsign text (by rw [hmin])

/-- The characters of a number that Go accepts are of the basic plane. -/
theorem plain_of_pattern (h : integerPattern text = true) :
    ∀ symbol ∈ text, symbol.toNat < 0x10000 := by
  have hdigit : ∀ symbol, isDigitChar symbol = true → symbol.toNat < 0x10000 := by
    intro symbol hsym
    rw [← isDigit_toNat, JsonText.isDigit_iff] at hsym
    omega
  have huns : ∀ digits, unsignedPattern digits = true →
      ∀ symbol ∈ digits, symbol.toNat < 0x10000 := by
    intro digits hdig symbol hsym
    cases digits with
    | nil => cases hdig
    | cons digit rest =>
      simp only [unsignedPattern] at hdig
      split at hdig
      · rename_i hzero
        obtain rfl : rest = [] := List.isEmpty_iff.mp hdig
        rw [List.mem_singleton.mp hsym, hzero]
        decide
      · obtain ⟨hfir, hrest⟩ := Bool.and_eq_true_iff.mp hdig
        rcases List.mem_cons.mp hsym with rfl | hmem
        · exact hdigit _ hfir
        · exact hdigit _ (List.all_eq_true.mp hrest symbol hmem)
  unfold integerPattern at h
  split at h
  · intro symbol hsym
    rcases List.mem_cons.mp hsym with rfl | hmem
    · decide
    · exact huns _ h symbol hmem
  · exact huns _ h

/-- Texts joined by commas. -/
theorem encode_intercalate (parts : List (List Char)) :
    Utf16.encode ([','].intercalate parts) = separated (parts.map Utf16.encode) := by
  induction parts with
  | nil => rfl
  | cons part parts ih =>
    cases parts with
    | nil => simp [List.intercalate, separated]
    | cons next rest =>
      have hspl : [','].intercalate (part :: next :: rest) =
          part ++ ',' :: [','].intercalate (next :: rest) := by
        simp [List.intercalate]
      rw [hspl, Utf16.encode_append, Utf16.encode_cons, ih]
      rfl

/-- Go's members, encoded one after the other. -/
theorem writeCanonical_object (entries : List (String × GoValue)) :
    writeCanonical (.object entries) = (do
      let parts ← (sortedMembers entries).mapM fun entry => do
        let text ← writeCanonical entry.2
        ok (writeString entry.1 ++ ':' :: text)
      ok ('\x7b' :: [','].intercalate parts ++ ['\x7d'])) := by
  have hmem := sortedMembers_map writeCanonical entries
  rw [writeCanonical, Tree.fold_object]
  change (do
    let parts ← (sortedMembers (entries.map (Prod.map id writeCanonical))).mapM _
    ok ('\x7b' :: [','].intercalate parts ++ ['\x7d'])) = _
  rw [hmem, List.mapM_map]
  rfl

/-- Go's items, encoded one after the other. -/
theorem writeCanonical_array (items : List GoValue) :
    writeCanonical (.array items) = (do
      let parts ← items.mapM writeCanonical
      ok ('[' :: [','].intercalate parts ++ [']'])) := by
  rw [writeCanonical, Tree.fold_array]
  dsimp only
  rw [List.mapM_map]
  rfl

variable {value : GoValue}

/-- **What Go writes** is the text of the canonical tree, and every number in it is an integer
literal. -/
theorem writeCanonical_eq (h : writeCanonical value = ok text) :
    Utf16.encode text = render (canonicalTree value) ∧ Integral (canonicalTree value) := by
  induction value using Tree.inductionOn generalizing text with
  | null =>
    cases h
    exact ⟨rfl, trivial⟩
  | bool value =>
    cases h
    cases value <;> exact ⟨rfl, trivial⟩
  | number literal =>
    change (if integerPattern literal.toList then ok literal.toList else error _) = ok text at h
    split at h
    · rename_i hpat
      cases h
      refine ⟨rfl, ?_⟩
      change isIntegerLiteral (Utf16.encode literal.toList) = true
      rw [encode_eq_map (plain_of_pattern hpat)]
      exact isIntegerLiteral_of_pattern hpat
    · cases h
  | string value =>
    cases h
    exact ⟨encode_writeString value, trivial⟩
  | array items ih =>
    rw [writeCanonical_array] at h
    obtain ⟨parts, hpar, hok⟩ := bind_eq_ok.mp h
    cases hok
    rw [canonicalTree_array, JsonText.render_array, JsonText.integral_array]
    constructor
    · have hmap : parts.map Utf16.encode = (items.map canonicalTree).map render := by
        rw [List.map_map]
        exact Fallible.map_of_mapM hpar fun item hitem part hpart => (ih item hitem hpart).1
      rw [Utf16.encode_append, Utf16.encode_cons, encode_intercalate, hmap]
      rfl
    · refine List.forall_mem_map.mpr fun item hitem => ?_
      obtain ⟨part, hpart⟩ := Fallible.exists_of_mapM hpar hitem
      exact (ih item hitem hpart).2
  | object entries ih =>
    rw [writeCanonical_object] at h
    obtain ⟨parts, hpar, hok⟩ := bind_eq_ok.mp h
    cases hok
    rw [canonicalTree_object, JsonText.render_object, JsonText.integral_object]
    constructor
    · have hmap : parts.map Utf16.encode =
          ((sortedMembers entries).map (Prod.map units canonicalTree)).map renderMember := by
        rw [List.map_map]
        refine Fallible.map_of_mapM hpar fun entry hent part hpart => ?_
        obtain ⟨text, htext, hok⟩ := bind_eq_ok.mp hpart
        cases hok
        have hmem := (ih entry (mem_of_mem_sortedMembers hent) htext).1
        rw [Utf16.encode_append, Utf16.encode_cons, encode_writeString, hmem]
        rfl
      rw [Utf16.encode_append, Utf16.encode_cons, encode_intercalate, hmap]
      rfl
    · refine List.forall_mem_map.mpr fun entry hent => ?_
      obtain ⟨part, hpart⟩ := Fallible.exists_of_mapM hpar hent
      obtain ⟨text, htext, -⟩ := bind_eq_ok.mp hpart
      exact (ih entry (mem_of_mem_sortedMembers hent) htext).2

/-! ### Portable documents -/

/-- The integer literals both sides write alike: those of a safe integer, minus zero apart. -/
def portableLiteral (literal : String) : Bool :=
  literal ≠ "-0" && (literalValue (units literal)).natAbs ≤ maxSafeInteger

/-- Keys that both sides sort alike: their bytes are in the order of their units. -/
def keysAgree (keys : List String) : Bool :=
  keys.all fun one => keys.all fun other =>
    decide (goBytes one < goBytes other ↔ units one < units other)

/-- **A portable document**: every integer in it is safe and not minus zero, and in every object
the bytes of the keys are in the order of their units. -/
def portable : GoValue → Bool :=
  Tree.fold
    { null := true
      bool := fun _ => true
      number := portableLiteral
      string := fun _ => true
      array := fun items => items.all id
      object := fun entries =>
        let members := (OrderedMap.ofEntries entries).entries
        members.all Prod.snd && keysAgree (members.map Prod.fst) }

theorem portable_array {items : List GoValue} :
    portable (.array items) = true ↔ ∀ item ∈ items, portable item = true := by
  rw [portable, Tree.fold_array]
  simp only [List.all_map, List.all_eq_true, Function.comp_apply, id]

/-- An object is portable when its members are and its keys are sorted alike. -/
theorem portable_object {entries : List (String × GoValue)} :
    portable (.object entries) = true ↔
      (∀ entry ∈ (OrderedMap.ofEntries entries).entries, portable entry.2 = true) ∧
        keysAgree ((OrderedMap.ofEntries entries).entries.map Prod.fst) = true := by
  have hent := OrderedMap.entries_ofEntries_map portable entries
  rw [portable, Tree.fold_object]
  change ((OrderedMap.ofEntries (entries.map (Prod.map id portable))).entries.all Prod.snd &&
    keysAgree ((OrderedMap.ofEntries (entries.map (Prod.map id portable))).entries.map
      Prod.fst)) = true ↔ _
  rw [hent, Bool.and_eq_true_iff, List.all_map, List.all_eq_true, List.map_map]
  rfl

/-! ### What TypeScript writes -/

/-- TypeScript's items, encoded one after the other. -/
theorem canonicalize_array (items : List JsValue) :
    canonicalize (.array items) = (do
      let parts ← items.mapM canonicalize
      ok (0x5B :: separated parts ++ [0x5D])) := by
  rw [canonicalize, Tree.fold_array]
  dsimp only
  rw [List.mapM_map]
  rfl

/-- The members of an object in the order of their keys' units. -/
def byUnits (entries : List (List ℕ × β)) : List (List ℕ × β) :=
  entries.insertionSort fun one other => one.1 ≤ other.1

theorem byUnits_map {γ : Type} (f : β → γ) (entries : List (List ℕ × β)) :
    byUnits (entries.map (Prod.map id f)) = (byUnits entries).map (Prod.map id f) :=
  (List.map_insertionSort _ (fun one other : List ℕ × γ => one.1 ≤ other.1) _ _
    fun _ _ _ _ => Iff.rfl).symm

/-- TypeScript's members, encoded one after the other. -/
theorem canonicalize_object (entries : List (List ℕ × JsValue)) :
    canonicalize (.object entries) = (do
      let parts ← (byUnits entries).mapM fun entry => do
        let text ← canonicalize entry.2
        ok (canonicalizeString entry.1 ++ 0x3A :: text)
      ok (0x7B :: separated parts ++ [0x7D])) := by
  rw [canonicalize, Tree.fold_object]
  change (do
    let parts ← (byUnits (entries.map (Prod.map id canonicalize))).mapM _
    ok (0x7B :: separated parts ++ [0x7D])) = _
  rw [byUnits_map, List.mapM_map]
  rfl

/-- The tree whose text TypeScript writes: every number as it is shown, every object in the order
of its keys' units. A number that is refused leaves nothing. -/
def scriptTree : JsValue → Tree (List ℕ) (List ℕ) :=
  Tree.fold
    { null := .null
      bool := .bool
      number := fun value =>
        match value with
        | .safe value => .number (showInteger value)
        | .negativeZero => .number (ascii "0")
        | .other _ => .null
      string := .string
      array := .array
      object := fun entries => .object (byUnits entries) }

theorem scriptTree_array (items : List JsValue) :
    scriptTree (.array items) = .array (items.map scriptTree) :=
  Tree.fold_array _ items

theorem scriptTree_object (entries : List (List ℕ × JsValue)) :
    scriptTree (.object entries) = .object ((byUnits entries).map (Prod.map id scriptTree)) :=
  (Tree.fold_object _ entries).trans (congrArg Tree.object (byUnits_map scriptTree entries))

/-- **What TypeScript writes** is the text of that tree, and every number in it is an integer
literal. -/
theorem canonicalize_eq {parsed : JsValue} {again : List ℕ} (h : canonicalize parsed = ok again) :
    again = render (scriptTree parsed) ∧ Integral (scriptTree parsed) := by
  induction parsed using Tree.inductionOn generalizing again with
  | null =>
    cases h
    exact ⟨rfl, trivial⟩
  | bool value =>
    cases h
    cases value <;> exact ⟨rfl, trivial⟩
  | number value =>
    cases value with
    | safe value =>
      cases h
      exact ⟨rfl, JsonText.isIntegerLiteral_showInteger value⟩
    | negativeZero =>
      cases h
      exact ⟨rfl, rfl⟩
    | other => cases h
  | string value =>
    cases h
    exact ⟨canonicalizeString_eq value, trivial⟩
  | array items ih =>
    rw [canonicalize_array] at h
    obtain ⟨parts, hpar, hok⟩ := bind_eq_ok.mp h
    cases hok
    rw [scriptTree_array, JsonText.render_array, JsonText.integral_array, List.map_map]
    constructor
    · have hmap : parts.map id = items.map (render ∘ scriptTree) :=
        Fallible.map_of_mapM hpar fun item hitem part hpart => (ih item hitem hpart).1
      rw [← hmap, List.map_id]
    · refine List.forall_mem_map.mpr fun item hitem => ?_
      obtain ⟨part, hpart⟩ := Fallible.exists_of_mapM hpar hitem
      exact (ih item hitem hpart).2
  | object entries ih =>
    have hmem : ∀ entry ∈ byUnits entries, entry ∈ entries := fun entry =>
      (List.mem_insertionSort _).mp
    rw [canonicalize_object] at h
    obtain ⟨parts, hpar, hok⟩ := bind_eq_ok.mp h
    cases hok
    rw [scriptTree_object, JsonText.render_object, JsonText.integral_object, List.map_map]
    constructor
    · have hmap : parts.map id = (byUnits entries).map (renderMember ∘ Prod.map id scriptTree) := by
        refine Fallible.map_of_mapM hpar fun entry hent part hpart => ?_
        obtain ⟨text, htext, hok⟩ := bind_eq_ok.mp hpart
        cases hok
        rw [id, canonicalizeString_eq, (ih entry (hmem entry hent) htext).1]
        rfl
      rw [← hmap, List.map_id]
    · refine List.forall_mem_map.mpr fun entry hent => ?_
      obtain ⟨part, hpart⟩ := Fallible.exists_of_mapM hpar hent
      obtain ⟨text, htext, -⟩ := bind_eq_ok.mp hpart
      exact (ih entry (hmem entry hent) htext).2

/-- A portable number is shown as it was written. -/
theorem canonicalize_number {double : List ℕ → JsNumber} {literal : String}
    (hpor : portableLiteral literal = true)
    (hint : isIntegerLiteral (units literal) = true) :
    canonicalize (.number (jsNumber double (units literal))) = ok (units literal) := by
  simp only [portableLiteral, Bool.and_eq_true, decide_eq_true_eq] at hpor
  obtain ⟨hzero, hsafe⟩ := hpor
  have hne : units literal ≠ ascii "-0" := fun heq => hzero (units_injective heq)
  rw [jsNumber, if_pos hint, if_neg hne, if_pos hsafe]
  exact congrArg ok (JsonText.showInteger_literalValue hint hne)

/-- The members of a portable object are in the order of their units. -/
theorem pairwise_units {entries : List (String × β)}
    (h : keysAgree ((OrderedMap.ofEntries entries).entries.map Prod.fst) = true) :
    (sortedMembers entries).Pairwise fun one other => units one.1 < units other.1 := by
  simp only [keysAgree, List.all_eq_true, decide_eq_true_eq] at h
  have hkey : ∀ entry ∈ sortedMembers entries,
      entry.1 ∈ (OrderedMap.ofEntries entries).entries.map Prod.fst := by
    intro entry hent
    exact List.mem_map_of_mem ((List.mem_insertionSort _).mp hent)
  refine (pairwise_sortedMembers entries).imp_of_mem fun {one other} hone hoth hlt => ?_
  exact (h one.1 (hkey one hone) other.1 (hkey other hoth)).mp hlt

theorem jsValue_array (double : List ℕ → JsNumber) (items : List (Tree (List ℕ) (List ℕ))) :
    jsValue double (.array items) = .array (items.map (jsValue double)) :=
  Tree.fold_array _ items

/-- The value of an object with distinct keys. -/
theorem jsValue_object (double : List ℕ → JsNumber)
    {entries : List (List ℕ × Tree (List ℕ) (List ℕ))} (h : (entries.map Prod.fst).Nodup) :
    jsValue double (.object entries) = .object (entries.map (Prod.map id (jsValue double))) := by
  rw [jsValue, Tree.fold_object]
  change Tree.object (OrderedMap.ofEntries (entries.map (Prod.map id (jsValue double)))).entries = _
  have hkeys : ((entries.map (Prod.map id (jsValue double))).map Prod.fst).Nodup := by
    rw [List.map_map]
    exact h
  rw [OrderedMap.entries_ofEntries hkeys]
  rfl

/-- The keys of a canonical object are distinct. -/
theorem nodup_units {γ : Type} (f : β → γ) (entries : List (String × β)) :
    (((sortedMembers entries).map (Prod.map units f)).map Prod.fst).Nodup := by
  rw [List.map_map]
  refine List.pairwise_map.mpr ((pairwise_sortedMembers entries).imp fun {one other} hlt heq => ?_)
  rw [units_injective heq] at hlt
  exact lt_irrefl _ hlt

/-- **TypeScript writes the text of the canonical tree** of a portable document. -/
theorem canonicalize_canonicalTree (double : List ℕ → JsNumber)
    (hpor : portable value = true) (hint : Integral (canonicalTree value)) :
    canonicalize (jsValue double (canonicalTree value)) = ok (render (canonicalTree value)) := by
  induction value using Tree.inductionOn with
  | null => rfl
  | bool value => cases value <;> rfl
  | number => exact canonicalize_number hpor hint
  | string value => exact congrArg ok (canonicalizeString_eq (units value))
  | array items ih =>
    rw [portable_array] at hpor
    rw [canonicalTree_array] at hint ⊢
    rw [JsonText.integral_array] at hint
    have hpar : (((items.map canonicalTree).map (jsValue double)).mapM canonicalize) =
        ok ((items.map canonicalTree).map render) := by
      rw [List.map_map, List.map_map, List.mapM_map]
      refine Fallible.mapM_eq_map fun item hitem => ?_
      exact ih item hitem (hpor item hitem) (hint _ (List.mem_map_of_mem hitem))
    rw [jsValue_array, canonicalize_array, hpar, JsonText.render_array]
    rfl
  | object entries ih =>
    rw [portable_object] at hpor
    obtain ⟨hmem, hkeys⟩ := hpor
    rw [canonicalTree_object] at hint ⊢
    rw [JsonText.integral_object] at hint
    have hord := pairwise_units hkeys
    have hsor : (((sortedMembers entries).map (Prod.map units canonicalTree)).map
        (Prod.map id (jsValue double))).Pairwise fun one other => one.1 ≤ other.1 := by
      rw [List.map_map]
      exact List.pairwise_map.mpr (hord.imp le_of_lt)
    have hpar : (((sortedMembers entries).map (Prod.map units canonicalTree)).map
        (Prod.map id (jsValue double))).mapM (fun entry => do
          let text ← canonicalize entry.2
          ok (canonicalizeString entry.1 ++ 0x3A :: text)) =
        ok (((sortedMembers entries).map (Prod.map units canonicalTree)).map renderMember) := by
      rw [List.map_map, List.map_map, List.mapM_map]
      refine Fallible.mapM_eq_map fun entry hent => ?_
      have hlis := (List.mem_insertionSort _).mp hent
      have htext := ih entry (OrderedMap.mem_of_mem_entries_ofEntries hlis)
        (hmem entry hlis) (hint _ (List.mem_map_of_mem hent))
      change (do
        let text ← canonicalize (jsValue double (canonicalTree entry.2))
        ok (canonicalizeString (units entry.1) ++ 0x3A :: text)) = _
      rw [htext, canonicalizeString_eq]
      rfl
    rw [jsValue_object double (nodup_units _ _), canonicalize_object, byUnits, hsor.insertionSort_eq,
      hpar, JsonText.render_object]
    rfl

/-- The number nearest to an integer beyond the safe range is no safe integer. -/
def RoundsOutside (double : List ℕ → JsNumber) : Prop :=
  ∀ literal, isIntegerLiteral literal = true → maxSafeInteger < (literalValue literal).natAbs →
    ∃ shown, double literal = .other shown

variable {double : List ℕ → JsNumber}

/-- Fewer keys agree as well. -/
theorem keysAgree_subset {keys keys' : List String} (h : keysAgree keys' = true)
    (hsub : keys ⊆ keys') : keysAgree keys = true := by
  simp only [keysAgree, List.all_eq_true] at h ⊢
  exact fun one hone other hoth => h one (hsub hone) other (hsub hoth)

/-- Keys that increase by their bytes and by their units agree. -/
theorem keysAgree_of_pairwise {keys : List String}
    (h : keys.Pairwise fun one other => goBytes one < goBytes other ∧ units one ≤ units other) :
    keysAgree keys = true := by
  let agree := fun one other : String => (goBytes one < goBytes other ↔ units one < units other) ∧
    (goBytes other < goBytes one ↔ units other < units one)
  have hsymm : Std.Symm agree := ⟨fun _ _ => And.symm⟩
  have hpair : keys.Pairwise agree := h.imp fun {one other} ⟨hbytes, hunits⟩ => by
    have hlt : units one < units other := lt_of_le_of_ne hunits fun heq =>
      lt_irrefl _ (units_injective heq ▸ hbytes)
    exact ⟨iff_of_true hbytes hlt, iff_of_false hbytes.asymm hlt.asymm⟩
  have hall := hpair.forall_of_forall fun key _ => by simp [agree]
  simp only [keysAgree, List.all_eq_true, decide_eq_true_eq]
  exact fun one hone other hoth => (hall hone hoth).1

/-- **A document that TypeScript writes as Go did is portable.** -/
theorem portable_of_scriptTree (hround : RoundsOutside double)
    (hint : Integral (canonicalTree value))
    (h : scriptTree (jsValue double (canonicalTree value)) = canonicalTree value) :
    portable value = true := by
  induction value using Tree.inductionOn with
  | null | bool | string => rfl
  | number literal =>
    have hint : isIntegerLiteral (units literal) = true := hint
    change scriptTree (.number (jsNumber double (units literal))) = .number (units literal) at h
    rw [jsNumber, if_pos hint] at h
    change portableLiteral literal = true
    split at h
    · rename_i hzero
      rw [hzero] at h
      cases h
    rename_i hzero
    simp only [portableLiteral, Bool.and_eq_true, decide_eq_true_eq]
    refine ⟨fun heq => hzero (by rw [heq]; rfl), ?_⟩
    split at h
    · assumption
    rename_i hlarge
    obtain ⟨_, hother⟩ := hround _ hint (Nat.lt_of_not_le hlarge)
    rw [hother] at h
    cases h
  | array items ih =>
    rw [canonicalTree_array] at hint h
    rw [jsValue_array, scriptTree_array, List.map_map, List.map_map] at h
    rw [JsonText.integral_array] at hint
    have heach := List.map_inj_left.mp (Tree.array.inj h)
    exact portable_array.mpr fun item hitem =>
      ih item hitem (hint _ (List.mem_map_of_mem hitem)) (heach item hitem)
  | object entries ih =>
    rw [canonicalTree_object] at hint h
    rw [jsValue_object double (nodup_units _ _), scriptTree_object] at h
    rw [JsonText.integral_object] at hint
    have h := Tree.object.inj h
    -- the members are in the order of their units, so that sorting them changes nothing
    have hord : (sortedMembers entries).Pairwise fun one other => units one.1 ≤ units other.1 := by
      have hkeys : ((byUnits (((sortedMembers entries).map (Prod.map units canonicalTree)).map
          (Prod.map id (jsValue double)))).map (Prod.map id scriptTree)).Pairwise
          fun one other => one.1 ≤ other.1 := List.pairwise_map.mpr (List.pairwise_insertionSort _ _)
      rw [h] at hkeys
      exact (List.pairwise_map (f := Prod.map units canonicalTree)).mp hkeys
    have hsor : (((sortedMembers entries).map (Prod.map units canonicalTree)).map
        (Prod.map id (jsValue double))).Pairwise fun one other => one.1 ≤ other.1 := by
      rw [List.map_map]
      exact List.pairwise_map.mpr hord
    rw [byUnits, hsor.insertionSort_eq, List.map_map, List.map_map] at h
    have heach := List.map_inj_left.mp h
    refine portable_object.mpr ⟨fun entry hent => ?_, ?_⟩
    · have hmem := (List.mem_insertionSort (fun one other => goBytes one.1 ≤ goBytes other.1)).mpr hent
      exact ih entry (OrderedMap.mem_of_mem_entries_ofEntries hent)
        (hint _ (List.mem_map_of_mem hmem)) (Prod.mk.inj (heach entry hmem)).2
    · have hkeys : keysAgree ((sortedMembers entries).map Prod.fst) = true := keysAgree_of_pairwise
        (List.pairwise_map.mpr ((pairwise_sortedMembers entries).and hord))
      refine keysAgree_subset hkeys fun key hkey => ?_
      obtain ⟨entry, hent, rfl⟩ := List.mem_map.mp hkey
      exact List.mem_map_of_mem ((List.mem_insertionSort _).mpr hent)

/-- **Reading back and encoding again returns the text exactly if the document is portable.** -/
theorem reencoded_iff (hround : RoundsOutside double) (h : writeCanonical value = ok text) :
    (∃ parsed, jsonParse double (Utf16.encode text) = some parsed ∧
      canonicalize parsed = ok (Utf16.encode text)) ↔ portable value = true := by
  obtain ⟨htext, hint⟩ := writeCanonical_eq h
  have hparse : jsonParse double (Utf16.encode text) = some (jsValue double (canonicalTree value)) := by
    rw [jsonParse, htext, JsonText.parse_render hint]
    rfl
  refine ⟨fun ⟨parsed, hparsed, hagain⟩ => ?_, fun hpor => ⟨_, hparse, ?_⟩⟩
  · obtain rfl := Option.some.inj (hparse.symm.trans hparsed)
    obtain ⟨hrender, hint'⟩ := canonicalize_eq hagain
    have hread := JsonText.parse_render hint'
    rw [← hrender, htext, JsonText.parse_render hint] at hread
    exact portable_of_scriptTree hround hint (Option.some.inj hread).symm
  · rw [htext]
    exact canonicalize_canonicalTree double hpor hint

/-- **A canonical text identifies its document** up to the order of members: two documents have
one text exactly where they have one canonical tree. -/
theorem writeCanonical_identifies {value' : GoValue} {text' : List Char}
    (h : writeCanonical value = ok text) (h' : writeCanonical value' = ok text') :
    text = text' ↔ canonicalTree value = canonicalTree value' := by
  obtain ⟨htext, hint⟩ := writeCanonical_eq h
  obtain ⟨htext', hint'⟩ := writeCanonical_eq h'
  constructor
  · rintro rfl
    have hread := JsonText.parse_render hint
    rw [← htext, htext', JsonText.parse_render hint'] at hread
    exact (Option.some.inj hread).symm
  · intro htree
    exact Utf16.encode_injective (by rw [htext, htext', htree])

/-- The order of two members is lost. -/
theorem writeCanonical_identifies_swapped :
    canonicalTree (.object [("b", .null), ("a", .null)]) =
      canonicalTree (.object [("a", .null), ("b", .null)]) :=
  (writeCanonical_identifies (by decide +kernel : _ = ok "\x7b\"a\":null,\"b\":null\x7d".toList)
    (by decide +kernel)).mp rfl

end Flory
