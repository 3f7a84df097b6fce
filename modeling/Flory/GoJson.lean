import Flory.JsonText
import Flory.Utf16

/-!
# Go's JSON

What `encoding/json` writes for structures of strings and integers, and how it reads a text into
the fields of a structure. The encoder escapes what HTML and JavaScript would read otherwise
(`htmlEscape`). The decoder matches the keys of an object with the fields regardless of case
(`names`), lets `null` leave a field as it is, and turns half a surrogate pair into the
replacement character.

## Main results

* `encode_marshal`: what is written is a sequence of whole characters.
* `unmarshal_marshal`: a document is read back from its text.
-/

namespace GoJson

open JsonText (Tree)

variable {unit : ℕ}

/-! ### Writing -/

/-- A unit as `\u` and four hexadecimal digits. -/
def longEscape (unit : ℕ) : List ℕ :=
  [0x5C, 0x75, JsonText.hexDigit (unit / 4096), JsonText.hexDigit (unit / 256 % 16),
    JsonText.hexDigit (unit / 16 % 16), JsonText.hexDigit (unit % 16)]

/-- The units that HTML or JavaScript would read otherwise: `<`, `>`, `&` and two separators. -/
def isUnsafe (unit : ℕ) : Bool :=
  unit = 0x3C || unit = 0x3E || unit = 0x26 || unit = 0x2028 || unit = 0x2029

/-- A unit of a string, as the encoder escapes it. -/
def htmlEscape (unit : ℕ) : List ℕ :=
  if isUnsafe unit then longEscape unit else JsonText.escape unit

/-- The units of a text. -/
def textUnits (text : String) : List ℕ :=
  Utf16.encode text.toList

/-- The text of units, half a surrogate pair being replaced. -/
def unitsText (units : List ℕ) : String :=
  String.ofList (Utf16.decode units)

/-- A document with its strings as units and its integers as literals. -/
def literals : Tree String ℤ → Tree (List ℕ) (List ℕ) :=
  Tree.fold
    { null := .null
      bool := .bool
      number := fun value => .number (JsonText.showInteger value)
      string := fun value => .string (textUnits value)
      array := .array
      object := fun entries => .object (entries.map (Prod.map textUnits id)) }

/-- `json.Marshal`. -/
def marshal (document : Tree String ℤ) : List Char :=
  Utf16.decode (JsonText.renderWith htmlEscape (literals document))

/-! ### Reading -/

/-- What the decoder makes of a tree of units: numbers stay literals. -/
def texts : Tree (List ℕ) (List ℕ) → Tree String (List ℕ) :=
  Tree.fold
    { null := .null
      bool := .bool
      number := .number
      string := fun value => .string (unitsText value)
      array := .array
      object := fun entries => .object (entries.map (Prod.map unitsText id)) }

/-- The document of a text, if it is one. -/
def unmarshal (text : List Char) : Option (Tree String (List ℕ)) :=
  (JsonText.parse (Utf16.encode text)).map texts

/-- `foldRune`, as far as it concerns the letters of field names: the first of the characters
that differ by case only. -/
def foldRune (symbol : Char) : Char :=
  if symbol = 'ſ' then 'S' else if symbol = 'K' then 'K' else symbol.toUpper

/-- Whether a key names a field. -/
def names (field key : String) : Bool :=
  key.toList.map foldRune = field.toList.map foldRune

/-- A string field that holds `current`. -/
def decodeString (current : String) : Tree String (List ℕ) → Option String
  | .null => some current
  | .string value => some value
  | _ => none

/-- A field of strings, `none` being the nil slice. -/
def decodeStrings : Tree String (List ℕ) → Option (Option (List String))
  | .null => some none
  | .array items => (items.mapM (decodeString "")).map some
  | _ => none

/-- A field of 64-bit integers that holds `current`. -/
def decodeInt64 (current : Int64) : Tree String (List ℕ) → Option Int64
  | .null => some current
  | .number literal =>
    let value := JsonText.literalValue literal
    if JsonText.isIntegerLiteral literal && Int64.minValue.toInt ≤ value &&
        value ≤ Int64.maxValue.toInt then some (Int64.ofInt value)
    else none
  | _ => none

/-! ### What is written is read back -/

/-- Four hexadecimal digits stand for their unit. -/
theorem hexUnit_longEscape (h : unit < 0x10000) :
    JsonText.hexUnit (JsonText.hexDigit (unit / 4096)) (JsonText.hexDigit (unit / 256 % 16))
      (JsonText.hexDigit (unit / 16 % 16)) (JsonText.hexDigit (unit % 16)) = some unit := by
  have hfir := JsonText.hexValue_hexDigit (unit / 4096) (by omega)
  have hsec := JsonText.hexValue_hexDigit (unit / 256 % 16) (by omega)
  have hthird := JsonText.hexValue_hexDigit (unit / 16 % 16) (by omega)
  have hfour := JsonText.hexValue_hexDigit (unit % 16) (by omega)
  simp only [JsonText.hexUnit, hfir, hsec, hthird, hfour]
  exact congrArg some (by omega)

theorem lt_of_isUnsafe (h : isUnsafe unit = true) : unit < 0x10000 := by
  simp only [isUnsafe, Bool.or_eq_true, decide_eq_true_eq] at h
  omega

/-- **The encoder's escapes are read back.** -/
theorem readsBack_htmlEscape : JsonText.ReadsBack htmlEscape := by
  intro unit rest
  unfold htmlEscape
  split
  · rename_i huns
    simp only [longEscape, List.cons_append, List.nil_append, JsonText.parseChars]
    rw [hexUnit_longEscape (lt_of_isUnsafe huns)]
    cases JsonText.parseChars rest <;> rfl
  · exact JsonText.parseChars_escape unit rest

/-- The units of whole characters. -/
def Whole (units : List ℕ) : Prop :=
  ∃ text, units = Utf16.encode text

theorem Whole.append {one other : List ℕ} (hone : Whole one) (hoth : Whole other) :
    Whole (one ++ other) := by
  obtain ⟨text, rfl⟩ := hone
  obtain ⟨more, rfl⟩ := hoth
  exact ⟨text ++ more, (Utf16.encode_append text more).symm⟩

/-- Units of the basic alphabet are characters. -/
theorem whole_of_ascii {units : List ℕ} (h : ∀ unit ∈ units, unit < 0x80) : Whole units := by
  induction units with
  | nil => exact ⟨[], rfl⟩
  | cons unit units ih =>
    obtain ⟨text, htext⟩ := ih fun other hoth => h other (List.mem_cons_of_mem _ hoth)
    have hunit : unit < 0x80 := h unit List.mem_cons_self
    have hval : unit.isValidChar := by
      left
      omega
    have hnat : (Char.ofNat unit).toNat = unit := by
      rw [Char.ofNat, dif_pos hval]
      rfl
    refine ⟨Char.ofNat unit :: text, ?_⟩
    rw [Utf16.encode_cons, Utf16.encodeChar_eq (by omega), hnat, htext, List.singleton_append]

theorem hexDigit_lt {n : ℕ} (h : n < 16) : JsonText.hexDigit n < 0x80 := by
  unfold JsonText.hexDigit
  split <;> omega

/-- What is escaped belongs to the basic alphabet, what is not stays. -/
theorem htmlEscape_cases (unit : ℕ) :
    (∀ other ∈ htmlEscape unit, other < 0x80) ∨ htmlEscape unit = [unit] := by
  unfold htmlEscape
  split
  · rename_i huns
    have hbound := lt_of_isUnsafe huns
    refine .inl fun other hoth => ?_
    simp only [longEscape, List.mem_cons, List.not_mem_nil, or_false] at hoth
    rcases hoth with rfl | rfl | rfl | rfl | rfl | rfl
    · decide
    · decide
    all_goals exact hexDigit_lt (by omega)
  · unfold JsonText.escape
    split
    · rename_i letter hlet
      refine .inl fun other hoth => ?_
      simp only [List.mem_cons, List.not_mem_nil, or_false] at hoth
      rcases hoth with rfl | rfl
      · decide
      unfold JsonText.shortEscape at hlet
      split at hlet
      case h_8 => cases hlet
      all_goals
        cases hlet
        decide
    · split
      · rename_i hcon
        refine .inl fun other hoth => ?_
        simp only [List.mem_cons, List.not_mem_nil, or_false] at hoth
        rcases hoth with rfl | rfl | rfl | rfl | rfl | rfl
        iterate 4 decide
        all_goals exact hexDigit_lt (by omega)
      · exact .inr rfl

/-- Surrogates are not escaped. -/
theorem htmlEscape_eq (h : 0xD800 ≤ unit) : htmlEscape unit = [unit] := by
  have hsafe : isUnsafe unit = false := by
    simp only [isUnsafe, Bool.or_eq_false_iff, decide_eq_false_iff_not]
    omega
  have hshort : JsonText.shortEscape unit = none := by
    unfold JsonText.shortEscape
    split
    case h_8 => rfl
    all_goals omega
  rw [htmlEscape, hsafe, if_neg (by simp), JsonText.escape, hshort]
  exact if_neg (by omega)

/-- A character stays whole in the text of a string. -/
theorem whole_htmlEscape (symbol : Char) : Whole ((Utf16.encodeChar symbol).flatMap htmlEscape) := by
  by_cases hplane : symbol.toNat < 0x10000
  · rw [Utf16.encodeChar_eq hplane, List.flatMap_singleton]
    rcases htmlEscape_cases symbol.toNat with hesc | hplain
    · exact whole_of_ascii hesc
    · refine ⟨[symbol], ?_⟩
      rw [hplain, Utf16.encode_cons, Utf16.encodeChar_eq hplane, Utf16.encode_nil, List.append_nil]
  · -- both units of a pair are surrogates
    have hunits : ∀ unit ∈ Utf16.encodeChar symbol, htmlEscape unit = [unit] := by
      intro unit hunit
      rcases Utf16.mem_encodeChar hunit with rfl | hsur
      · exact htmlEscape_eq (by omega)
      · exact htmlEscape_eq hsur
    refine ⟨[symbol], ?_⟩
    rw [List.flatMap_congr hunits, Utf16.encode_cons, Utf16.encode_nil, List.append_nil]
    exact List.flatMap_singleton' _

/-- A string stays whole. -/
theorem whole_string (value : String) :
    Whole (JsonText.renderStringWith htmlEscape (textUnits value)) := by
  have hbody : Whole ((textUnits value).flatMap htmlEscape) := by
    unfold textUnits
    induction value.toList with
    | nil => exact ⟨[], rfl⟩
    | cons symbol text ih =>
      rw [Utf16.encode_cons, List.flatMap_append]
      exact (whole_htmlEscape symbol).append ih
  have hquote : Whole [0x22] := whole_of_ascii (by simp)
  exact (hquote.append hbody).append hquote

/-- Parts with commas between them stay whole. -/
theorem whole_separated {parts : List (List ℕ)} (h : ∀ part ∈ parts, Whole part) :
    Whole (JsonText.separated parts) := by
  induction parts with
  | nil => exact ⟨[], rfl⟩
  | cons part parts ih =>
    have hpart := h part List.mem_cons_self
    have hrest := ih fun other hoth => h other (List.mem_cons_of_mem _ hoth)
    cases parts with
    | nil => exact hpart
    | cons =>
      have hcom : Whole [0x2C] := whole_of_ascii (by simp)
      exact hpart.append (hcom.append hrest)

/-- An integer is written in the basic alphabet. -/
theorem whole_showInteger (value : ℤ) : Whole (JsonText.showInteger value) := by
  have hdig : ∀ n : ℕ, ∀ unit ∈ JsonText.showNat n, unit < 0x80 := by
    intro n unit hunit
    have hdigit := JsonText.mem_showNat hunit
    rw [JsonText.isDigit_iff] at hdigit
    omega
  cases value with
  | ofNat n => exact whole_of_ascii (hdig n)
  | negSucc n =>
    have hsign : Whole [0x2D] := whole_of_ascii (by simp)
    exact hsign.append (whole_of_ascii (hdig (n + 1)))

theorem literals_array (items : List (Tree String ℤ)) :
    literals (.array items) = .array (items.map literals) :=
  Tree.fold_array _ items

theorem literals_object (entries : List (String × Tree String ℤ)) :
    literals (.object entries) = .object (entries.map (Prod.map textUnits literals)) := by
  rw [literals, Tree.fold_object]
  simp only [List.map_map]
  rfl

/-- **What is written is a sequence of whole characters.** -/
theorem whole_marshal (document : Tree String ℤ) :
    Whole (JsonText.renderWith htmlEscape (literals document)) := by
  induction document using Tree.inductionOn with
  | null => exact whole_of_ascii (by decide)
  | bool value =>
    cases value
    · exact whole_of_ascii (by decide)
    · exact whole_of_ascii (by decide)
  | number value => exact whole_showInteger value
  | string value => exact whole_string value
  | array items ih =>
    rw [literals_array, JsonText.renderWith_array, List.map_map]
    have hopen : Whole [0x5B] := whole_of_ascii (by simp)
    have hclose : Whole [0x5D] := whole_of_ascii (by simp)
    refine (hopen.append (whole_separated ?_)).append hclose
    intro part hpart
    obtain ⟨item, hitem, rfl⟩ := List.mem_map.mp hpart
    exact ih item hitem
  | object entries ih =>
    rw [literals_object, JsonText.renderWith_object, List.map_map]
    have hopen : Whole [0x7B] := whole_of_ascii (by simp)
    have hclose : Whole [0x7D] := whole_of_ascii (by simp)
    have hcol : Whole [0x3A] := whole_of_ascii (by simp)
    refine (hopen.append (whole_separated ?_)).append hclose
    intro part hpart
    obtain ⟨entry, hent, rfl⟩ := List.mem_map.mp hpart
    exact (whole_string entry.1).append (hcol.append (ih entry hent))

theorem encode_marshal (document : Tree String ℤ) :
    Utf16.encode (marshal document) = JsonText.renderWith htmlEscape (literals document) := by
  obtain ⟨_, htext⟩ := whole_marshal document
  rw [marshal, htext, Utf16.decode_encode]

/-- The literals of a document are integers. -/
theorem integral_literals (document : Tree String ℤ) : JsonText.Integral (literals document) := by
  induction document using Tree.inductionOn with
  | null | bool | string => exact trivial
  | number value => exact JsonText.isIntegerLiteral_showInteger value
  | array items ih =>
    rw [literals_array, JsonText.integral_array]
    exact List.forall_mem_map.mpr ih
  | object entries ih =>
    rw [literals_object, JsonText.integral_object]
    exact List.forall_mem_map.mpr ih

theorem unitsText_textUnits (text : String) : unitsText (textUnits text) = text := by
  rw [unitsText, textUnits, Utf16.decode_encode, String.ofList_toList]

/-- A document with its integers as literals. -/
def written : Tree String ℤ → Tree String (List ℕ) :=
  Tree.fold
    { null := .null
      bool := .bool
      number := fun value => .number (JsonText.showInteger value)
      string := .string
      array := .array
      object := .object }

theorem written_object (entries : List (String × Tree String ℤ)) :
    written (.object entries) = .object (entries.map (Prod.map id written)) := by
  rw [written, Tree.fold_object]
  rfl

/-- The strings of a document are read back. -/
theorem texts_literals (document : Tree String ℤ) : texts (literals document) = written document := by
  induction document using Tree.inductionOn with
  | null | bool | number => rfl
  | string value => exact congrArg Tree.string (unitsText_textUnits value)
  | array items ih =>
    rw [literals_array, texts, Tree.fold_array, written, Tree.fold_array]
    simp only [List.map_map]
    exact congrArg Tree.array (List.map_congr_left ih)
  | object entries ih =>
    rw [literals_object, texts, Tree.fold_object, written, Tree.fold_object]
    simp only [List.map_map]
    refine congrArg Tree.object (List.map_congr_left fun entry hent => ?_)
    exact Prod.ext (unitsText_textUnits entry.1) (ih entry hent)

/-- **A document is read back from its text**, its integers as literals. -/
theorem unmarshal_marshal (document : Tree String ℤ) :
    unmarshal (marshal document) = some (written document) := by
  rw [unmarshal, encode_marshal,
    JsonText.parse_renderWith readsBack_htmlEscape (integral_literals document), Option.map_some,
    texts_literals]

/-- The strings of an array are read back. -/
theorem decodeStrings_written (values : List String) :
    decodeStrings (written (.array (values.map .string))) = some (some values) := by
  have hitems : ∀ values : List String,
      (values.map (Tree.string (ν := List ℕ))).mapM (decodeString "") = some values := by
    intro values
    induction values with
    | nil => rfl
    | cons value values ih =>
      rw [List.map_cons, List.mapM_cons, ih]
      rfl
  have hwrit : written (.array (values.map .string)) = .array (values.map .string) := by
    rw [written, Tree.fold_array]
    simp only [List.map_map]
    rfl
  rw [hwrit, decodeStrings, hitems, Option.map_some]

/-- A 64-bit integer is read back. -/
theorem decodeInt64_written (current value : Int64) :
    decodeInt64 current (written (.number value.toInt)) = some value := by
  have hwrit : written (.number value.toInt) = .number (JsonText.showInteger value.toInt) := rfl
  have hran : (JsonText.isIntegerLiteral (JsonText.showInteger value.toInt) &&
      decide (Int64.minValue.toInt ≤ value.toInt) && decide (value.toInt ≤ Int64.maxValue.toInt)) =
        true := by
    rw [JsonText.isIntegerLiteral_showInteger, decide_eq_true value.minValue_le_toInt,
      decide_eq_true value.toInt_le]
    rfl
  simp only [hwrit, decodeInt64, JsonText.literalValue_showInteger, hran, if_true,
    Int64.ofInt_toInt]

end GoJson
