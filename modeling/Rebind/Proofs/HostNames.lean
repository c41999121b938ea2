import Mathlib.Data.List.Basic
import Mathlib.Data.List.Induction
import Rebind.Code
import Rebind.Proofs.Emission

/-!
# What the parameters of the code mean

The function that runs the code takes what the host passes to it in six roles.  Three of them have
fixed names and the others the names in the options, and a name is a parameter once, however many
roles it has.  So the names have to be apart if each of them shall mean one thing: that is when no
name has two roles with different values (`parameters_have_one_meaning_iff`), and valid options do
not see to it (`one_name_for_scope_and_module`).
-/

namespace Rebind

/-- What the host passes to the function that runs the code. -/
inductive HostValue where
  | undefined
  | globalObject
  | scopeObject
  | moduleObject
  deriving Repr, DecidableEq

namespace Options

variable {options : Options}

/-- The roles in which the host passes something, each with its name and the value passed. -/
def roles (options : Options) : List (String × HostValue) :=
  [("arguments", .undefined), ("self", .globalObject), (options.globalBinding, .globalObject),
    ("globalThis", .globalObject), (options.scopeBinding, .scopeObject),
    (options.moduleBinding, .moduleObject)]

/-- The names of the roles, in order. -/
def roleNames (options : Options) : List String :=
  options.roles.map Prod.fst

/-- No name has two roles with different values. -/
def EachMeansOne (options : Options) : Prop :=
  ∀ name v w, (name, v) ∈ options.roles → (name, w) ∈ options.roles → v = w

/-- The names in the options are apart from each other and from the fixed names, but that the
global object may have each name under which it is passed anyway. -/
structure NamesApart (options : Options) : Prop where
  global : options.globalBinding ≠ "arguments"
  scope : options.scopeBinding ∉ ["arguments", "self", options.globalBinding, "globalThis"]
  module : options.moduleBinding ∉
    ["arguments", "self", options.globalBinding, "globalThis", options.scopeBinding]

theorem NamesApart.eachMeansOne (h : options.NamesApart) : options.EachMeansOne := by
  obtain ⟨hglobal, hscope, hmodule⟩ := h
  intro name v w hv hw
  simp only [roles, List.mem_cons, Prod.mk.injEq, List.not_mem_nil, or_false]
    at hv hw hscope hmodule
  grind

theorem EachMeansOne.namesApart (h : options.EachMeansOne) : options.NamesApart where
  global heq := by
    have hvalue := h "arguments" .undefined .globalObject (by simp [roles]) (by simp [roles, heq])
    cases hvalue
  scope hmem := by
    have hearlier : ∃ v, (options.scopeBinding, v) ∈ options.roles ∧ v ≠ .scopeObject := by
      simp only [List.mem_cons, List.not_mem_nil, or_false] at hmem
      rcases hmem with heq | heq | heq | heq
      · exact ⟨.undefined, by simp [roles, heq], by decide⟩
      all_goals exact ⟨.globalObject, by simp [roles, heq], by decide⟩
    obtain ⟨v, hv, hne⟩ := hearlier
    exact hne (h _ v .scopeObject hv (by simp [roles]))
  module hmem := by
    have hearlier : ∃ v, (options.moduleBinding, v) ∈ options.roles ∧ v ≠ .moduleObject := by
      simp only [List.mem_cons, List.not_mem_nil, or_false] at hmem
      rcases hmem with heq | heq | heq | heq | heq
      · exact ⟨.undefined, by simp [roles, heq], by decide⟩
      case inr.inr.inr.inr => exact ⟨.scopeObject, by simp [roles, heq], by decide⟩
      all_goals exact ⟨.globalObject, by simp [roles, heq], by decide⟩
    obtain ⟨v, hv, hne⟩ := hearlier
    exact hne (h _ v .moduleObject hv (by simp [roles]))

/-- A name that means one thing is found under its first role with that meaning. -/
theorem EachMeansOne.lookup_roles (h : options.EachMeansOne) {name : String} {value : HostValue}
    (hrole : (name, value) ∈ options.roles) : options.roles.lookup name = some value := by
  cases hfound : options.roles.lookup name with
  | none => simpa using List.lookup_eq_none_iff.1 hfound _ hrole
  | some other =>
    obtain ⟨front, back, hroles, -⟩ := List.lookup_eq_some_iff.1 hfound
    have hother : (name, other) ∈ options.roles := by simp [hroles]
    rw [h name other value hother hrole]

end Options

/-! ## Names, each once -/

/-- Adds a name to others if it is not among them. -/
abbrev addName (names : List String) (name : String) : List String :=
  if names.contains name then names else names ++ [name]

theorem mem_foldl_addName (roleNames : List String) (name : String) :
    name ∈ roleNames.foldl addName [] ↔ name ∈ roleNames := by
  induction roleNames using List.reverseRecOn with
  | nil => rfl
  | append_singleton names last ih =>
    rw [List.foldl_append, List.foldl_cons, List.foldl_nil, addName, List.mem_append, ← ih]
    split
    · next hlast =>
      have hlast : last ∈ names.foldl addName [] := List.contains_iff_mem.1 hlast
      simp only [List.mem_singleton]
      exact ⟨.inl, fun h => h.elim id fun heq => heq ▸ hlast⟩
    · exact List.mem_append

/-- Names stand in the order in which they are added first. -/
theorem foldl_addName_ordered (roleNames : List String) :
    (roleNames.foldl addName []).Pairwise
      fun a b => roleNames.idxOf a < roleNames.idxOf b := by
  induction roleNames using List.reverseRecOn with
  | nil => exact .nil
  | append_singleton names last ih =>
    have hidx : ∀ name ∈ names.foldl addName [],
        (names ++ [last]).idxOf name = names.idxOf name ∧ names.idxOf name < names.length := by
      intro name hname
      have hname : name ∈ names := (mem_foldl_addName names name).1 hname
      exact ⟨List.idxOf_append_of_mem hname, List.idxOf_lt_length_iff.2 hname⟩
    have hkept : (names.foldl addName []).Pairwise
        fun a b => (names ++ [last]).idxOf a < (names ++ [last]).idxOf b := by
      refine ih.imp_of_mem fun {a b} ha hb hlt => ?_
      rw [(hidx a ha).1, (hidx b hb).1]
      exact hlt
    rw [List.foldl_append, List.foldl_cons, List.foldl_nil, addName]
    split
    · exact hkept
    · next hlast =>
      have hnew : last ∉ names := by
        rw [← mem_foldl_addName]
        simpa using hlast
      refine List.pairwise_append.2 ⟨hkept, List.pairwise_singleton _ _, ?_⟩
      intro name hname other hother
      obtain rfl := List.mem_singleton.1 hother
      rw [(hidx name hname).1, List.idxOf_append_of_notMem hnew]
      have hlt := (hidx name hname).2
      omega

open Options in
/-- **Every parameter has one meaning if the names are apart.**  The parameters are the names of
all roles, each once and in the order of their first roles.  No name has two roles with different
values if and only if the names are apart, and then each role is found under its name. -/
theorem parameters_have_one_meaning_iff (options : Options) :
    (∀ name, name ∈ parameters options ↔ name ∈ options.roleNames) ∧
    (parameters options).Nodup ∧
    ((parameters options).Pairwise
      fun a b => options.roleNames.idxOf a < options.roleNames.idxOf b) ∧
    (options.EachMeansOne ↔ options.NamesApart) ∧
    (options.NamesApart → ∀ name value, (name, value) ∈ options.roles →
      name ∈ parameters options ∧ options.roles.lookup name = some value) := by
  have hmem (name : String) : name ∈ parameters options ↔ name ∈ options.roleNames :=
    mem_foldl_addName options.roleNames name
  have hordered := foldl_addName_ordered options.roleNames
  refine ⟨hmem, ?_, hordered, ⟨EachMeansOne.namesApart, NamesApart.eachMeansOne⟩, ?_⟩
  · exact hordered.imp fun hlt => by
      rintro rfl
      exact Nat.lt_irrefl _ hlt
  · intro happart name value hrole
    exact ⟨(hmem name).2 (List.mem_map_of_mem hrole),
      happart.eachMeansOne.lookup_roles hrole⟩

/-- Valid options may give the scope object and the module object the same name.  The name is one
parameter then, and the code refers to both objects by it. -/
theorem one_name_for_scope_and_module :
    let options : Options := { scopeBinding := "host", moduleBinding := "host" }
    options.validate = .ok () ∧
      parameters options = ["arguments", "self", "window", "globalThis", "host"] ∧
      ("host", .scopeObject) ∈ options.roles ∧ ("host", .moduleObject) ∈ options.roles ∧
      ¬ ∀ valid : Options, valid.validate = .ok () → valid.EachMeansOne := by
  intro options
  have hvalid : options.validate = .ok () := Code.eq_ok_of_toOption (by decide +kernel)
  refine ⟨hvalid, by decide, by decide, by decide, fun h => ?_⟩
  have hsame : HostValue.scopeObject = .moduleObject :=
    h options hvalid "host" .scopeObject .moduleObject (by decide) (by decide)
  cases hsame

end Rebind
