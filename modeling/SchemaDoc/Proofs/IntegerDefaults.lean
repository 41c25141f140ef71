import SchemaDoc.Proofs.Binary64.Shortest
import SchemaDoc.Proofs.Description.Agreement
import SchemaDoc.Proofs.Json.Number
import SchemaDoc.Proofs.Token.Lookahead
import SchemaDoc.Proofs.Verbatim

/-! Whole numbers as defaults.
A default is held as a number of sixty-four bits. A column shows a whole number that is held as the
same number, which is the default itself unless it has more than 53 bits.
-/

namespace SchemaDoc

open Grammar
open Binary64 (AreDigits signOf valueOfDigits)
open String (utf8Len)

-----------------------------------------------------------------------------------------
-- What is shown of a whole number
-----------------------------------------------------------------------------------------

/-- A whole number is shown as the canonical digits of one that is held as the same number, and up
to two to the power of 53 as its own.
-/
inductive ShowsInteger (n : Int) : Option String → Prop
  | mk {m : Int} (same : Binary64.ofInt m = Binary64.ofInt n)
    (exact : n.natAbs ≤ 2 ^ 53 → m = n)
    : ShowsInteger n (some (toString m))

theorem ShowsInteger.eq_toString {n : Int} {shown : Option String} (shows : ShowsInteger n shown)
    (isSmall : n.natAbs ≤ 2 ^ 53)
    : shown = some (toString n) := by
  obtain ⟨-, exact⟩ := shows
  rw [exact isSmall]

/-- The number with a sign and a magnitude. -/
def signed (negative : Bool) (v : Nat) : Int := if negative then -v else v

theorem signed_self (n : Int) : signed (decide (n < 0)) n.natAbs = n := by
  rw [signed]
  split
  next isNegative =>
    have := of_decide_eq_true isNegative
    omega
  next notNegative =>
    have := of_decide_eq_false (Bool.eq_false_of_not_eq_true notNegative)
    omega

theorem natAbs_signed (negative : Bool) (v : Nat) : (signed negative v).natAbs = v := by
  cases negative <;> simp [signed]

theorem decide_signed_lt {negative : Bool} {v : Nat} (isPositive : 0 < v)
    : decide (signed negative v < 0) = negative := by
  cases negative <;> simp [signed, isPositive]

theorem ofInt_signed {negative : Bool} {v : Nat} (isPositive : 0 < v)
    : Binary64.ofInt (signed negative v) = Binary64.ofRatio negative v 1 := by
  rw [Binary64.ofInt, decide_signed_lt isPositive, natAbs_signed]

theorem showsInteger_ofRatio (negative : Bool) {v : Nat} (inRange : v ≤ 2 ^ 63)
    : ShowsInteger (signed negative v) (Value.render? (.number (.ofRatio negative v 1))) := by
  rcases Nat.eq_zero_or_pos v with rfl | isPositive
  · -- the two zeros are shown alike
    have isZero : (Binary64.ofRatio negative 0 1).isZero = true := rfl
    have same : signed negative 0 = 0 := by cases negative <;> rfl
    rw [Value.render?, if_pos isZero, same]
    exact .mk (m := 0) rfl fun _ => rfl
  · obtain ⟨q, isPositive', exact, shown⟩ := Binary64.exists_shown isPositive.ne' inRange
    obtain ⟨same, notZero, plain⟩ := shown negative
    have digits : (Binary64.ofRatio negative v 1).toPlain = toString (signed negative q) := by
      rw [plain, ← String.toList_inj, Binary64.toList_toString, decide_signed_lt isPositive',
        natAbs_signed, String.toList_ofList]
    rw [Value.render?, if_neg (Bool.eq_false_iff.mp notZero), digits]
    refine .mk ?_ fun isSmall => ?_
    · rw [ofInt_signed isPositive, ofInt_signed isPositive', same]
    · rw [natAbs_signed] at isSmall
      rw [exact isSmall]

theorem showsInteger_ofInt {n : Int} (isLeast : -2 ^ 63 ≤ n) (isLess : n < 2 ^ 63)
    : ShowsInteger n (Value.render? (.number (.ofInt n))) := by
  have shows := showsInteger_ofRatio (decide (n < 0)) (v := n.natAbs) (by omega)
  rwa [signed_self] at shows

/-- A number without a fraction is a ratio to one. -/
theorem Binary64.ofDecimal_zero (negative : Bool) {v : Nat} (inRange : v ≤ 2 ^ 63)
    : ofDecimal negative v 0 = ofRatio negative v 1 := by
  rcases Nat.eq_zero_or_pos v with rfl | isPositive
  · cases negative <;> rfl
  · have isShort : (Nat.toDigits 10 v).length ≤ 20 :=
      (Nat.length_toDigits_le_iff (by decide) (by decide)).mpr (by omega)
    have notHuge : ¬310 < ((Nat.toDigits 10 v).length : Int) + 0 := by omega
    have notTiny : ¬((Nat.toDigits 10 v).length : Int) + 0 < -330 := by omega
    simp only [ofDecimal, if_neg isPositive.ne', if_neg notHuge, if_neg notTiny]
    rw [show Nat.pow 10 (0 : Int).toNat = 1 from rfl, show Nat.pow 10 (-0 : Int).toNat = 1 from rfl,
      Nat.mul_one]

-----------------------------------------------------------------------------------------
-- Whole numbers in a text
-----------------------------------------------------------------------------------------

/-- A literal of a whole number in a text: perhaps a minus sign, then digits, with nothing behind
them that would go on with the number. The place where it begins is inside no token, so that one can
start there.
-/
inductive IsIntegerLiteral (text : String) : Int → Span → Prop
  | mk {before digits after} (negative : Bool) (areDigits : AreDigits digits)
    (split : text.toList = before ++ (signOf negative ++ digits ++ after))
    (ends : ∀ c ∈ after.head?, Lexeme.isNumberPart c = false)
    (outside
      : ∀ token ∈ tokenize text,
          ¬(token.span.start < utf8Len before ∧ utf8Len before < token.span.stop))
    : IsIntegerLiteral text (signed negative (valueOfDigits digits))
        ⟨utf8Len before, utf8Len before + utf8Len (signOf negative ++ digits)⟩

theorem Lexeme.first?_signOf_append (negative : Bool) {digits after : List Char}
    (areDigits : AreDigits digits) (ends : ∀ c ∈ after.head?, isNumberPart c = false)
    : first? (signOf negative ++ digits ++ after)
      = some (verbatim .number (signOf negative ++ digits) after) := by
  obtain ⟨all, notNil⟩ := areDigits
  have areParts : ∀ c ∈ digits, isNumberPart c = true := fun c isMember => by
    rw [isNumberPart, all c isMember, Bool.true_or]
  have front := takeWhile_append_of_fails ends digits
  have back := dropWhile_append_of_fails ends digits
  rw [List.takeWhile_eq_self_iff.mpr areParts] at front back
  have isNumber (sign : List Char)
      : number sign (digits ++ after) = verbatim .number (sign ++ digits) after := by
    rw [number, front, back]
  rw [List.append_assoc, ← isNumber]
  obtain ⟨c, others, rfl⟩ := List.exists_cons_of_ne_nil notNil
  have isDigit := all c List.mem_cons_self
  cases negative with
  | true => simp [signOf, first?, isDigit]
  | false =>
      have alone := standsAlone_of_holds (·.isDigit = true) (by simp) isDigit (others ++ after)
      have notQuote : ¬(c = '"' ∨ c = '\x27') := by
        rintro (rfl | rfl) <;> simp at isDigit
      rw [signOf, if_neg Bool.false_ne_true, List.nil_append, List.cons_append,
        first?_of_standsAlone alone, if_neg notQuote, if_pos isDigit]

theorem isBlank_of_isDigit {c : Char} (isDigit : c.isDigit = true) : Text.isBlank c = false := by
  obtain ⟨isLeast, isMost⟩ := Char.isDigit_iff_toNat.mp isDigit
  have ends : '0'.toNat = 48 ∧ '9'.toNat = 57 := ⟨rfl, rfl⟩
  exact Text.not_isBlank_of_isGraphic (by omega) (by omega)

/-- A scan does not pass over the front of a number. -/
theorem not_isGap_of_number {negative : Bool} {digits after rest : List Char} {c : Char}
    (areDigits : AreDigits digits) (split : signOf negative ++ digits ++ after = c :: rest)
    : ¬IsGap c rest := by
  obtain ⟨all, notNil⟩ := areDigits
  obtain ⟨digit, others, rfl⟩ := List.exists_cons_of_ne_nil notNil
  have isDigit := all digit List.mem_cons_self
  cases negative with
  | true =>
      obtain ⟨rfl, rfl⟩ := List.cons.inj split
      rintro (⟨isBlank, -⟩ | notStart)
      · exact absurd isBlank (by decide)
      · exact notStart (by simp [StartsToken, isDigit])
  | false =>
      obtain ⟨rfl, rfl⟩ := List.cons.inj split
      rintro (⟨isBlank, -⟩ | notStart)
      · exact absurd (isBlank.symm.trans (isBlank_of_isDigit isDigit)) (by decide)
      · exact notStart (by simp [StartsToken, isDigit])

/-- A literal of a whole number is read as one token, of which the number can be read and nothing
else in the text has a part.
-/
theorem IsIntegerLiteral.token {text : String} {n : Int} {span : Span}
    (isLiteral : IsIntegerLiteral text n span)
    : ∃ token ∈ tokenize text,
        token.kind = .number
        ∧ (∃ negative v,
            n = signed negative v
            ∧ Binary64.readLongest? token.text.toList = some (.ofDecimal negative v 0))
        ∧ token.span = span
        ∧ span.start < span.stop
        ∧ ∀ other ∈ tokenize text, other = token ∨ other.span.IsApart span := by
  obtain @⟨before, digits, after, negative, areDigits, split, ends, outside⟩ := isLiteral
  obtain ⟨c, rest, front⟩ := List.exists_cons_of_ne_nil
    (show signOf negative ++ digits ++ after ≠ [] by simp [areDigits.notNil])
  have read := Lexeme.first?_signOf_append negative areDigits ends
  rw [front] at split read
  obtain ⟨token, isMember, isNumber, spelled, place, alone⟩ := exists_token_of_first? split
    (not_isGap_of_number areDigits front) outside read
  refine ⟨token, isMember, isNumber, ⟨negative, _, rfl, ?_⟩, place, ?_, place ▸ alone⟩
  · rw [spelled, String.toList_ofList]
    exact (Binary64.readsUpTo_self (Binary64.read?_whole negative areDigits)).readLongest?_eq
  · obtain ⟨digit, others, rfl⟩ := List.exists_cons_of_ne_nil areDigits.notNil
    have isPositive := digit.utf8Size_pos
    simp only [String.utf8Len_append, String.utf8Len_cons]
    omega

-----------------------------------------------------------------------------------------
-- Whole numbers in a document
-----------------------------------------------------------------------------------------

/-- The first attribute of a name has a literal of a whole number for its first argument. -/
inductive GivesInteger (text : String) (attributes : List Attribute) (name : String) (n : Int)
  : Prop
  | mk {a argument literal} (isFirst : Attribute.find? attributes name = some a)
    (isArgument : a.arguments.head? = some argument) (isLiteral : IsIntegerLiteral text n literal)
    (ends : argument.span.stop = literal.stop)
    : GivesInteger text attributes name n

/-- A column that shows the whole number which a literal gives for the default of its field. -/
def Field.ShowsIntegers (text : String) (field : Field) (column : Column) : Prop :=
  ∀ n,
    GivesInteger text field.attributes "default" n
    → -2 ^ 63 ≤ n
    → n < 2 ^ 63
    → ShowsInteger n column.default

/-- A column that shows the whole number which is described as the default of its field. -/
def Description.Field.ShowsIntegers (field : Description.Field) (column : Column) : Prop :=
  ∀ n,
    field.effectiveDefault? = some (.number (.integer n))
    → -2 ^ 63 ≤ n
    → n < 2 ^ 63
    → ShowsInteger n column.default

/-- A table whose columns show the whole numbers which literals give for their fields. -/
def Model.ShowsIntegers (text : String) (lookup : Lookup) (model : Model) (table : Table) : Prop :=
  List.Forall₂ (Field.ShowsIntegers text) (model.fields.filter lookup.isColumn) table.columns

/-- A table whose columns show the whole numbers which are described as defaults of their fields. -/
def Description.Model.ShowsIntegers (lookup : Lookup) (model : Description.Model) (table : Table)
    : Prop :=
  List.Forall₂ Description.Field.ShowsIntegers
    (model.fields.filter fun field => lookup.isColumn field.toField) table.columns

theorem Field.showsIntegers_toColumn {text : String} {field : Field}
    (within : ∀ a ∈ field.attributes, a.StandsIn text)
    : field.ShowsIntegers text field.toColumn := by
  rintro n ⟨isFirst, isArgument, isLiteral, ends⟩ isLeast isLess
  obtain ⟨inside, value⟩ := Attribute.within_firstArgument within isFirst isArgument
  obtain ⟨token, -, isNumber, ⟨negative, v, rfl, reads⟩, rfl, isLong, alone⟩ := isLiteral.token
  have isValue := (Argument.literal_of_stop inside (.inr isNumber) isLong alone ends).eq_number
    isNumber reads
  have inRange : v ≤ 2 ^ 63 := by
    rw [← natAbs_signed negative v]
    omega
  have default : field.toColumn.default = Value.render? (.number (.ofRatio negative v 1)) := by
    rw [toColumn, renderedDefault?, default?, value, Option.bind_some, isValue,
      Binary64.ofDecimal_zero negative inRange]
  rw [default]
  exact showsInteger_ofRatio negative inRange

theorem Description.Field.showsIntegers_toColumn (field : Description.Field)
    : field.ShowsIntegers field.toField.toColumn := by
  intro n isInteger isLeast isLess
  have default : field.toField.toColumn.default = Value.render? (.number (.ofInt n)) := by
    rw [SchemaDoc.Field.toColumn, SchemaDoc.Field.renderedDefault?, default?_toField,
      default?_eq_bind, isInteger]
    rfl
  rw [default]
  exact showsInteger_ofInt isLeast isLess

theorem Description.Model.showsIntegers_toTable (lookup : Lookup) (indexes : List Index)
    (model : Description.Model)
    : model.ShowsIntegers lookup ((model.toModel indexes).toTable lookup) := by
  have columns : ((model.toModel indexes).toTable lookup).columns
      = (model.fields.filter fun field => lookup.isColumn field.toField).map
          (·.toField.toColumn) := by
    change ((model.fields.map Field.toField).filter lookup.isColumn).map SchemaDoc.Field.toColumn
      = _
    rw [List.filter_map, List.map_map]
    rfl
  rw [ShowsIntegers, columns]
  exact forall₂_map_self fun field _ => field.showsIntegers_toColumn

/-- Whole numbers come into a document by way of numbers of sixty-four bits. Where a literal of one
is the default of a field in a text, or a JSON number that of a described field, the column shows
the canonical digits of a whole number that is held as the same number, and up to two to the power
of 53 those of the number itself. A JSON text of its digits is read as the number exactly.
-/
theorem integer_defaults_are_shown
    : (∀ text strict schema heading,
        Schema.ofText strict text = .ok schema
        → List.Forall₂ (Model.ShowsIntegers text (.ofSchema schema)) schema.models
            (Document.ofSchema heading schema).tables)
      ∧ (∀ (description : Description) heading,
          List.Forall₂ (Description.Model.ShowsIntegers (.ofSchema description.toSchema))
            description.models (Document.ofSchema heading description.toSchema).tables)
      ∧ ∀ n : Int,
          -2 ^ 63 ≤ n
          → n < 2 ^ 63
          → ∀ rest,
              Json.Written.EndsNumber rest
              → Json.Written.scanNumber ((toString n).toList ++ rest)
                = (.number (.integer n), some rest) := by
  refine ⟨fun text strict schema heading read => ?_, fun description heading => ?_,
    fun n isLeast isLess rest ends => ?_⟩
  · obtain ⟨models, -⟩ := attributes_standIn_of_ofText read
    exact forall₂_map_self fun model isModel => forall₂_map_self fun field isColumn =>
      field.showsIntegers_toColumn ((models model isModel).2 field (List.mem_filter.mp isColumn).1)
  · have tables : (Document.ofSchema heading description.toSchema).tables
        = description.models.map fun model =>
            (model.toModel description.indexes).toTable (.ofSchema description.toSchema) :=
      List.map_map
    rw [tables]
    exact forall₂_map_self fun model _ => model.showsIntegers_toTable _ _
  · exact Json.Written.scanNumber_render_integer isLeast (by omega) ends

/-- The fields of a schema that become columns, model by model. -/
def Schema.columnFields (schema : Schema) : List (List Field) :=
  schema.models.map fun model => model.fields.filter (Lookup.ofSchema schema).isColumn

/-- In a text with one column that has a default, a literal that ends where the first argument of
the default does gives the default.
-/
theorem exists_givesInteger {text : String} {stop : Nat}
    (reads
      : (Schema.ofText true text).toOption.map (fun schema =>
          schema.columnFields.map fun fields =>
            fields.map fun field =>
              ((Attribute.find? field.attributes "default").bind (·.arguments.head?)).map
                (·.span.stop))
        = some [[some stop]])
    : ∃ schema field,
        Schema.ofText true text = .ok schema
        ∧ schema.columnFields = [[field]]
        ∧ ∀ n literal,
            IsIntegerLiteral text n literal
            → literal.stop = stop
            → GivesInteger text field.attributes "default" n := by
  cases read : Schema.ofText true text with
  | error error => simp [read, Except.toOption] at reads
  | ok schema =>
      rw [read] at reads
      obtain ⟨fields, isOnly, found⟩ := List.map_eq_singleton_iff.mp (Option.some.inj reads)
      obtain ⟨field, rfl, isAt⟩ := List.map_eq_singleton_iff.mp found
      obtain ⟨argument, isArgument, ends⟩ := Option.map_eq_some_iff.mp isAt
      obtain ⟨a, isFirst, isArgument⟩ := Option.bind_eq_some_iff.mp isArgument
      exact ⟨schema, field, rfl, isOnly, fun n literal isLiteral stop =>
        .mk isFirst isArgument isLiteral (ends.trans stop.symm)⟩

/-- A default of 53 bits, written with a sign and with zeros in front, is shown by its own canonical
digits.
-/
theorem integer_defaults_are_shown_exactly
    : let text := "model A \x7b x BigInt @default(-009007199254740991) \x7d"
      let n : Int := -9007199254740991
      ∃ schema field,
        Schema.ofText true text = .ok schema
        ∧ schema.columnFields = [[field]]
        ∧ GivesInteger text field.attributes "default" n
        ∧ (-2 ^ 63 ≤ n ∧ n < 2 ^ 63)
        ∧ ∀ heading,
            (Document.ofSchema heading schema).tables.map (·.columns.map Column.default)
              = [[some "-9007199254740991"]] := by
  intro text n
  obtain ⟨schema, field, read, isOnly, gives⟩ :=
    @exists_givesInteger text 47 (by decide +kernel)
  have isLiteral : IsIntegerLiteral text n ⟨28, 47⟩ :=
    @IsIntegerLiteral.mk text "model A \x7b x BigInt @default(".toList
      "009007199254740991".toList ") \x7d".toList true
      (by decide +kernel) (by decide +kernel) (fun _ isFirst => Option.some.inj isFirst ▸ by decide)
      (by decide +kernel)
  have given := gives n _ isLiteral rfl
  have inRange : -2 ^ 63 ≤ n ∧ n < 2 ^ 63 := by decide
  refine ⟨schema, field, read, isOnly, given, inRange, fun heading => ?_⟩
  have tables := integer_defaults_are_shown.1 text true schema heading read
  obtain ⟨model, isModel, isField⟩ := List.map_eq_singleton_iff.mp isOnly
  rw [isModel] at tables
  obtain ⟨table, none, columns, isEnd, same⟩ := List.forall₂_cons_left_iff.mp tables
  rw [Model.ShowsIntegers, isField] at columns
  obtain ⟨column, none', shows, isEnd', same'⟩ := List.forall₂_cons_left_iff.mp columns
  rw [same, List.forall₂_nil_left_iff.mp isEnd, List.map_singleton, same',
    List.forall₂_nil_left_iff.mp isEnd', List.map_singleton]
  rw [(shows n given inRange.1 inRange.2).eq_toString (by decide)]
  rfl

/-- A default of 54 bits is shown by the digits of the whole number in front of it. -/
theorem integer_default_of_54_bits
    : let text := "model A \x7b x BigInt @default(9007199254740993) \x7d"
      let n : Int := 9007199254740993
      ∃ schema field,
        Schema.ofText true text = .ok schema
        ∧ schema.columnFields = [[field]]
        ∧ GivesInteger text field.attributes "default" n
        ∧ (-2 ^ 63 ≤ n ∧ n < 2 ^ 63)
        ∧ ∀ heading,
            (Document.ofSchema heading schema).tables.map (·.columns.map Column.default)
              = [[some "9007199254740992"]] := by
  intro text n
  obtain ⟨schema, field, read, isOnly, gives⟩ :=
    @exists_givesInteger text 44 (by decide +kernel)
  have isLiteral : IsIntegerLiteral text n ⟨28, 44⟩ :=
    @IsIntegerLiteral.mk text "model A \x7b x BigInt @default(".toList
      "9007199254740993".toList ") \x7d".toList false
      (by decide +kernel) (by decide +kernel) (fun _ isFirst => Option.some.inj isFirst ▸ by decide)
      (by decide +kernel)
  refine ⟨schema, field, read, isOnly, gives n _ isLiteral rfl, by decide, fun heading => ?_⟩
  have shown : (Schema.ofText true text).toOption.map (fun schema =>
      (schema.models.map (Model.toTable (.ofSchema schema))).map (·.columns.map Column.default))
        = some [[some "9007199254740992"]] := by
    decide +kernel
  rw [read] at shown
  exact Option.some.inj shown

end SchemaDoc
