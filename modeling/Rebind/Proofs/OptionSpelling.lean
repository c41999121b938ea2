import Rebind.Options.Decode
import Rebind.Proofs.Json.Printing

/-!
# Options from any spelling

A text that spells an object gives the options that its members give, one after the other
(`decode_of_spells`), so nothing but the members counts: neither blanks nor escapes, and no member
of an unknown name.  `Describes` says which members describe given options and `Faulty` which ones
describe none (`options_decode_from_any_spelling`).
-/

namespace Rebind.Options

open Rebind.Json

/-! ## Fields and their values -/

theorem Field.mem_all (field : Field) : field ∈ Field.all := by
  cases field <;> decide

theorem Field.ofName?_name (field : Field) : Field.ofName? field.name = some field := by
  cases field <;> decide

theorem Field.name_of_ofName? {name : String} {field : Field}
    (h : Field.ofName? name = some field) : field.name = name := by
  simpa using List.find?_some h

theorem Field.name_ne_of_ofName? {name : String} (h : Field.ofName? name = none) (field : Field) :
    field.name ≠ name := by
  rintro rfl
  rw [Field.ofName?_name] at h
  cases h

theorem Field.name_inj {field other : Field} : field.name = other.name ↔ field = other := by
  refine ⟨fun h => ?_, congrArg Field.name⟩
  have hsome := Field.ofName?_name field
  rw [h, Field.ofName?_name] at hsome
  exact (Option.some.inj hsome).symm

/-- The words for a boolean. -/
def words : Bool → List String
  | true => ["true", "1", "yes", "on"]
  | false => ["false", "0", "no", "off"]

theorem boolOfWord?_eq_some {text : String} {value : Bool} :
    boolOfWord? text = some value ↔ Text.normalizedWord text ∈ words value := by
  unfold boolOfWord?
  split <;> cases value <;> simp_all [words]

/-- A value is a form of what options say for a field. -/
inductive Writes (options : Options) : Field → Value → Prop where
  | globalBinding : Writes options .globalBinding (.string options.globalBinding)
  | scopeBinding : Writes options .scopeBinding (.string options.scopeBinding)
  | moduleBinding : Writes options .moduleBinding (.string options.moduleBinding)
  | hoistFunctions : Writes options .hoistFunctions (.boolean options.hoistFunctions)
  | hoistWord {text : String} (h : Text.normalizedWord text ∈ words options.hoistFunctions) :
      Writes options .hoistFunctions (.string text)
  | indentWidth : Writes options .indentWidth (.nat options.indentWidth.toNat)

theorem nat?_nat (n : Nat) : (Value.nat n).nat? = some n := by
  have hdigits : ∀ c ∈ Nat.toDigits 10 n, ('0' ≤ c && c ≤ '9') = true := fun c hc => by
    simpa [Char.isDigit, Char.le_def] using Nat.isDigit_of_mem_toDigits (by decide) (by decide) hc
  have hvalue := Nat.ofDigitChars_toDigits (b := 10) (n := n) (by decide) (by decide)
  simp only [Nat.ofDigitChars, Nat.mul_comm 10] at hvalue
  simp only [Value.nat, Value.nat?, Nat.toString_eq_repr, Nat.toList_repr]
  rw [if_pos (by simpa using hdigits), hvalue]

/-- Options with the values of others for some fields, and the default values for the rest. -/
def restrict (options : Options) (fields : List Field) : Options :=
  let default : Options := {}
  { globalBinding :=
      if .globalBinding ∈ fields then options.globalBinding else default.globalBinding
    scopeBinding := if .scopeBinding ∈ fields then options.scopeBinding else default.scopeBinding
    moduleBinding :=
      if .moduleBinding ∈ fields then options.moduleBinding else default.moduleBinding
    hoistFunctions :=
      if .hoistFunctions ∈ fields then options.hoistFunctions else default.hoistFunctions
    indentWidth := if .indentWidth ∈ fields then options.indentWidth else default.indentWidth }

theorem restrict_nil (options : Options) : options.restrict [] = {} := rfl

theorem restrict_congr (options : Options) {fields others : List Field}
    (h : ∀ field, field ∈ fields ↔ field ∈ others) :
    options.restrict fields = options.restrict others := by
  simp only [restrict, h]

/-- A form of a value of a field gives the field that value. -/
theorem set_of_writes {options : Options} {field : Field} {value : Value}
    (h : Writes options field value) (fields : List Field) :
    (options.restrict fields).set field value = .ok (options.restrict (field :: fields)) := by
  cases h with
  | globalBinding | scopeBinding | moduleBinding | hoistFunctions =>
    simp only [restrict, List.mem_cons, reduceCtorEq, false_or, true_or, if_true]
    rfl
  | hoistWord h =>
    rw [set_hoistFunctions_string, boolOfWord?_eq_some.2 h]
    simp [restrict]
  | indentWidth =>
    rw [set_indentWidth _ (nat?_nat _) options.indentWidth.toNat_lt]
    simp [restrict]

theorem set_null (options : Options) (field : Field) :
    options.set field .null = .error .malformed := by
  cases field <;> rfl

theorem set_noWord (options : Options) {text : String}
    (h : ∀ value, Text.normalizedWord text ∉ words value) :
    options.set .hoistFunctions (.string text) = .error (.invalidBoolean text) := by
  rw [set_hoistFunctions_string]
  cases hvalue : boolOfWord? text with
  | none => rfl
  | some value => exact absurd (boolOfWord?_eq_some.1 hvalue) (h value)

/-! ## Members -/

/-- Gives options a member, after members for the fields that are known already. -/
def takeMember (known : Options × List Field) (member : String × Value) :
    Except OptionsError (Options × List Field) :=
  match Field.ofName? member.1 with
  | none => .ok known
  | some field =>
    if field ∈ known.2 then .error .malformed
    else (known.1.set field member.2).map (·, field :: known.2)

/-- Members describe options: each of them is for another field, or has an unknown name. -/
structure Describes (members : List (String × Value)) (options : Options) : Prop where
  unique : ∀ field : Field, (members.map (·.1)).count field.name ≤ 1
  writes : ∀ (field : Field) value, (field.name, value) ∈ members → Writes options field value

/-- Members that describe no options. -/
inductive Faulty (members : List (String × Value)) : Prop where
  | repeated (field : Field) (h : 2 ≤ (members.map (·.1)).count field.name)
  | null (field : Field) (h : (field.name, .null) ∈ members)
  | noWord {text : String} (h : (Field.hoistFunctions.name, .string text) ∈ members)
      (hword : ∀ value, Text.normalizedWord text ∉ words value)

/-- The fields that members have. -/
def fieldsOf (members : List (String × Value)) : List Field :=
  Field.all.filter fun field => (members.map (·.1)).contains field.name

theorem mem_fieldsOf {members : List (String × Value)} {field : Field} :
    field ∈ fieldsOf members ↔ field.name ∈ members.map (·.1) := by
  simp [fieldsOf, Field.mem_all]

section Members

variable {options : Options} {seen : List Field} {members : List (String × Value)}

theorem Describes.tail {member : String × Value} (h : Describes (member :: members) options) :
    Describes members options where
  unique field := Nat.le_trans
    ((List.sublist_cons_self ..).count_le field.name) (h.unique field)
  writes field value hmem := h.writes field value (List.mem_cons_of_mem _ hmem)

/-- Members that describe options give what they say of them, after members for other fields. -/
theorem foldlM_takeMember_of_describes (seen : List Field) (h : Describes members options)
    (hseen : ∀ field ∈ seen, field.name ∉ members.map (·.1)) :
    ∃ given, members.foldlM takeMember (options.restrict seen, seen) =
        .ok (options.restrict given, given) ∧
      ∀ field, field ∈ given ↔ field ∈ seen ∨ field.name ∈ members.map (·.1) := by
  induction members generalizing seen with
  | nil => exact ⟨seen, rfl, by simp⟩
  | cons member members ih =>
    obtain ⟨name, value⟩ := member
    rw [List.foldlM_cons, takeMember]
    cases hname : Field.ofName? name with
    | none =>
      obtain ⟨given, hgiven, hmem⟩ := ih seen h.tail fun field hfield hin =>
        hseen field hfield (List.mem_cons_of_mem _ hin)
      refine ⟨given, hgiven, fun field => ?_⟩
      simp [hmem, Field.name_ne_of_ofName? hname field]
    | some field =>
      obtain rfl := Field.name_of_ofName? hname
      have hnew : field ∉ seen := fun hin => hseen field hin List.mem_cons_self
      have honce : field.name ∉ members.map (·.1) := by
        have hcount := h.unique field
        rw [List.map_cons, List.count_cons_self] at hcount
        exact List.count_eq_zero.1 (by omega)
      obtain ⟨given, hgiven, hmem⟩ := ih (field :: seen) h.tail (by
        rintro other (_ | ⟨_, hother⟩) hin
        · exact honce hin
        · exact hseen other hother (List.mem_cons_of_mem _ hin))
      refine ⟨given, ?_, fun other => ?_⟩
      · simp only [if_neg hnew, set_of_writes (h.writes field value List.mem_cons_self) seen]
        exact hgiven
      · simp only [hmem, List.mem_cons, List.map_cons, Field.name_inj, or_assoc, or_left_comm]

/-- A member is taken if its name is unknown, or if it is the first one of its field and its value
is one for that field. -/
theorem takeMember_eq_ok {known next : Options × List Field} {name : String} {value : Value} :
    takeMember known (name, value) = .ok next ↔
      ((∀ field : Field, field.name ≠ name) ∧ next = known) ∨
      ∃ field options, field.name = name ∧ field ∉ known.2 ∧
        known.1.set field value = .ok options ∧ next = (options, field :: known.2) := by
  rw [takeMember]
  cases hname : Field.ofName? name with
  | none =>
    have hunknown := Field.name_ne_of_ofName? hname
    simp [hunknown, eq_comm]
  | some field =>
    obtain rfl := Field.name_of_ofName? hname
    by_cases hknown : field ∈ known.2
    · simp [Field.name_inj, hknown]
    · cases hset : known.1.set field value <;>
        simp [Field.name_inj, hknown, hset, Except.map, eq_comm]

/-- Of members that are taken no field occurs twice, and each value is one for its field. -/
theorem foldlM_takeMember_sound {known last : Options × List Field}
    (h : members.foldlM takeMember known = .ok last) (field : Field) :
    (field ∈ known.2 → field.name ∉ members.map (·.1)) ∧
      (members.map (·.1)).count field.name ≤ 1 ∧
      ∀ value, (field.name, value) ∈ members →
        ∃ before after : Options, before.set field value = .ok after := by
  induction members generalizing known with
  | nil => simp
  | cons member members ih =>
    obtain ⟨name, value⟩ := member
    rw [List.foldlM_cons] at h
    cases hstep : takeMember known (name, value) with
    | error e =>
      rw [hstep] at h
      cases h
    | ok next =>
      rw [hstep] at h
      obtain ⟨hfresh, hcount, hvalues⟩ := ih h
      obtain ⟨hunknown, rfl⟩ | ⟨named, options, rfl, hnew, hset, rfl⟩ := takeMember_eq_ok.1 hstep
      · have hne := hunknown field
        exact ⟨by simpa [hne] using hfresh, by simpa [hne.symm] using hcount,
          by simpa [hne] using hvalues⟩
      by_cases hfield : field = named
      · subst hfield
        have hlast : field.name ∉ members.map (·.1) := hfresh List.mem_cons_self
        refine ⟨fun hknown => absurd hknown hnew, ?_, fun other hother => ?_⟩
        · simp [List.count_eq_zero.2 hlast]
        · obtain _ | ⟨_, hother⟩ := hother
          · exact ⟨_, _, hset⟩
          · exact hvalues other hother
      · have hne : field.name ≠ named.name := fun hname => hfield (Field.name_inj.1 hname)
        refine ⟨fun hknown => ?_, by simpa [hne.symm] using hcount, by simpa [hne] using hvalues⟩
        simpa [hne] using hfresh (List.mem_cons_of_mem _ hknown)

/-- Faulty members are not taken. -/
theorem foldlM_takeMember_of_faulty (h : Faulty members) (known : Options × List Field) :
    ∃ e, members.foldlM takeMember known = .error e := by
  cases htake : members.foldlM takeMember known with
  | error e => exact ⟨e, rfl⟩
  | ok last =>
    exfalso
    have hsound := foldlM_takeMember_sound htake
    cases h with
    | repeated field hcount => exact absurd (hsound field).2.1 (by omega)
    | null field hmem =>
      obtain ⟨before, after, hset⟩ := (hsound field).2.2 _ hmem
      rw [set_null] at hset
      cases hset
    | noWord hmem hword =>
      obtain ⟨before, after, hset⟩ := (hsound .hoistFunctions).2.2 _ hmem
      rw [set_noWord before hword] at hset
      cases hset

end Members

/-! ## Texts -/

section Texts

variable {options : Options} {seen : List Field} {members : List (String × Value)} {n : Nat}
  {cs : List Char}

theorem decodeMembers_skipBlanks :
    decodeMembers options seen n (skipBlanks cs) = decodeMembers options seen n cs := by
  cases n with
  | zero => rfl
  | succ n => simp only [decodeMembers, skipBlanks_skipBlanks]

/-- Each member takes a character at least past the blanks before the first one. -/
theorem length_le_of_spellsMembers (h : SpellsMembers members cs) (rest : List Char) :
    members.length ≤ (skipBlanks (cs ++ rest)).length := by
  induction members generalizing cs with
  | nil => cases h
  | cons member members ih =>
    cases h with
    | last hbefore hkey =>
      rw [List.append_assoc, List.append_assoc, skipBlanks_of_spellsString hbefore hkey]
      simp
      omega
    | @cons _ _ _ _ _ _ _ _ _ more hbefore hkey _ _ _ _ tail =>
      have hlength : members.length ≤ (more ++ rest).length :=
        Nat.le_trans (ih tail) (List.dropWhile_sublist _).length_le
      rw [List.append_assoc, List.append_assoc, skipBlanks_of_spellsString hbefore hkey]
      simp only [List.length_append, List.length_cons] at hlength ⊢
      omega

/-- A member is read, and then it is taken. -/
theorem decodeMembers_member {name : String} {value : Value}
    {before key gap middle text more : List Char} (hbefore : IsGap before)
    (hkey : SpellsString name key) (hgap : IsGap gap) (hmiddle : IsGap middle)
    (htext : Spells value text) (hmore : EndsNumber more) :
    decodeMembers options seen (n + 1)
        (before ++ (key ++ (gap ++ ':' :: (middle ++ (text ++ more))))) = (do
      let known ← takeMember (options, seen) (name, value)
      match skipBlanks more with
      | ',' :: more => decodeMembers known.1 known.2 n more
      | '}' :: more => return (known.1, more)
      | _ => throw .malformed) := by
  rw [decodeMembers_succ
    (by rw [skipBlanks_of_spellsString hbefore hkey, string?_of_spells true hkey])
    (skipBlanks_mark hgap ':' (by decide) _)
    fun strict => value?_of_spells strict hmiddle htext hmore, takeMember]
  cases Field.ofName? name with
  | none => rfl
  | some field =>
    by_cases hseen : field ∈ seen
    · simp [hseen, throw, throwThe, MonadExceptOf.throw, bind, Except.bind]
    · simp only [Option.any_some, List.contains_eq_mem, hseen, decide_false, Bool.false_eq_true,
        if_false]
      cases options.set field value <;> rfl

/-- Members are read and taken one after the other. -/
theorem decodeMembers_of_spells (h : SpellsMembers members cs) (hn : members.length ≤ n)
    (rest : List Char) :
    decodeMembers options seen n (cs ++ '}' :: rest) =
      (members.foldlM takeMember (options, seen)).map fun known => (known.1, rest) := by
  induction members generalizing cs options seen n with
  | nil => cases h
  | cons member members ih =>
    obtain ⟨n, rfl⟩ := Nat.exists_eq_add_one.2 (Nat.lt_of_lt_of_le (Nat.succ_pos _) hn)
    rw [List.foldlM_cons]
    cases h with
    | last hbefore hkey hgap hmiddle head hafter =>
      have hmark := endsNumber_mark hafter '}' (by decide) rest
      simp only [List.append_assoc, List.cons_append]
      rw [decodeMembers_member hbefore hkey hgap hmiddle head hmark]
      simp only [skipBlanks_mark hafter '}' (by decide)]
      cases takeMember (options, seen) _ <;> rfl
    | @cons _ _ _ _ _ _ _ _ _ more hbefore hkey hgap hmiddle head hafter tail =>
      have hmark := endsNumber_mark hafter ',' (by decide) (more ++ '}' :: rest)
      simp only [List.append_assoc, List.cons_append]
      rw [decodeMembers_member hbefore hkey hgap hmiddle head hmark]
      simp only [skipBlanks_mark hafter ',' (by decide)]
      cases takeMember (options, seen) _ with
      | error e => rfl
      | ok known => exact ih tail (Nat.le_of_succ_le_succ hn)

/-- A whole text that spells an object gives what its members give. -/
theorem decode_of_spells {before after : List Char} (hbefore : IsGap before)
    (h : Spells (.object members) cs) (hafter : IsGap after) :
    decode (String.ofList (before ++ (cs ++ after))) =
      (members.foldlM takeMember ({}, [])).map (·.1) := by
  have hend := skipBlanks_gap hafter
  have hopen := skipBlanks_of_spells hbefore h after
  rw [decode, String.toList_ofList, hopen]
  cases h with
  | emptyObject hgap =>
    have hclose := skipBlanks_mark hgap '}' (by decide) after
    simp only [List.cons_append, List.append_assoc, List.nil_append, hclose]
    simp [hend, bind, Except.bind, pure, Except.pure, Except.map]
  | @object _ cs hmembers =>
    have hhead := hmembers.head ('}' :: after)
    have hlength := length_le_of_spellsMembers hmembers ('}' :: after)
    simp only [List.cons_append, List.append_assoc, List.nil_append]
    rw [decodeMembers_skipBlanks, decodeMembers_of_spells hmembers hlength]
    cases members.foldlM takeMember ({}, []) with
    | error e => rfl
    | ok known => simp [hend, bind, Except.bind, pure, Except.pure, Except.map]

/-- Members that describe options give their values in any spelling, whatever else is in the text,
and faulty members give an error. -/
theorem options_decode_from_any_spelling {before after : List Char} (hbefore : IsGap before)
    (h : Spells (.object members) cs) (hafter : IsGap after) :
    (∀ described : Options, Describes members described →
      decode (String.ofList (before ++ (cs ++ after))) =
        .ok (described.restrict (fieldsOf members))) ∧
    (Faulty members → ∃ e, decode (String.ofList (before ++ (cs ++ after))) = .error e) := by
  rw [decode_of_spells hbefore h hafter]
  constructor
  · intro described hdescribes
    obtain ⟨given, hgiven, hmem⟩ :=
      foldlM_takeMember_of_describes [] hdescribes (by simp)
    rw [restrict_nil] at hgiven
    rw [hgiven]
    refine congrArg Except.ok (described.restrict_congr fun field => ?_)
    simp [hmem, mem_fieldsOf]
  · intro hfaulty
    obtain ⟨e, he⟩ := foldlM_takeMember_of_faulty hfaulty ({}, [])
    exact ⟨e, by rw [he]; rfl⟩

end Texts

/-- Blanks, an escape and a member of an unknown name do not matter, and a name has to be there. -/
theorem options_decode_with_unknown_member :
    decode "\x7b \"extra\" : [ ] ,\n \"hoistFunctions\": \"\\tOff \", \"indentWidth\":2\x7d\n" =
      .ok { hoistFunctions := false, indentWidth := 2 } ∧
    ∃ e, decode "\x7b\"scopeBinding\":null\x7d" = .error e := by
  have hblank : IsGap [' '] := by simp [IsGap, isBlank]
  have hline : IsGap ['\n'] := by simp [IsGap, isBlank]
  have hbreak : IsGap ['\n', ' '] := by simp [IsGap, isBlank]
  constructor
  · have hspells : Spells (.object [("extra", .array []), ("hoistFunctions", .string "\tOff "),
        ("indentWidth", .nat 2)]) _ :=
      .object (.cons hblank (spellsString_writtenString _) hblank hblank (.emptyArray hblank) hblank
        (.cons hbreak (spellsString_writtenString _) isGap_nil hblank
          (.string (spellsString_writtenString _)) isGap_nil
          (.last hblank (spellsString_writtenString _) isGap_nil isGap_nil
            (.number (by decide)) isGap_nil)))
    have hdescribes : Describes [("extra", .array []), ("hoistFunctions", .string "\tOff "),
        ("indentWidth", .nat 2)] { hoistFunctions := false, indentWidth := 2 } := by
      refine ⟨fun field => by cases field <;> decide, fun field value hmem => ?_⟩
      cases field <;> simp [Field.name] at hmem <;> subst hmem
      · exact .hoistWord (by decide)
      · exact .indentWidth
    have hdecode := (options_decode_from_any_spelling isGap_nil hspells hline).1 _ hdescribes
    exact hdecode
  · have hspells : Spells (.object [("scopeBinding", .null)]) _ :=
      .object (.last isGap_nil (spellsString_writtenString _) isGap_nil isGap_nil .null isGap_nil)
    have hfaulty : Faulty [("scopeBinding", .null)] := .null .scopeBinding (by simp [Field.name])
    exact (options_decode_from_any_spelling isGap_nil hspells isGap_nil).2 hfaulty

end Rebind.Options
