import Mathlib
import Reckon.Language.Catalogue
import Reckon.Pattern.Build
import Reckon.Proofs.Language.ModelFiles
import Reckon.Proofs.Sequencing
import Reckon.Proofs.Text.LetterCase
import Reckon.RuleData

/-!
# Models stored and loaded

A catalogue finds the language that was registered last under a key. A trained model carries the
name of its language as registered, and is kept where every spelling of that name leads. It serves
all spellings if nothing is trimmed from the registered name, and none of them otherwise: the key of
a name is trimmed, and the name in the model is not.
-/

set_option autoImplicit false

namespace Reckon

open Sequencing

/-! Languages. -/

namespace Catalogue

section Languages

variable {c : Catalogue} {language : Language} {languages : List Language} {name other : String}

def ofLanguages (languages : List Language) : Catalogue :=
  languages.foldl register {}

theorem lookup_filter {k dropped : String} (apart : k ≠ dropped)
    (entries : List (String × Language)) :
    (entries.filter (·.1 != dropped)).lookup k = entries.lookup k := by
  induction entries with
  | nil => rfl
  | cons entry rest ih =>
      obtain ⟨own, kept⟩ := entry
      rw [List.lookup_cons]
      by_cases same : own = dropped
      · rw [List.filter_cons_of_neg (by simpa using same), ih, same, beq_eq_false_iff_ne.mpr apart]
      · rw [List.filter_cons_of_pos (by simpa using same), List.lookup_cons, ih]

theorem lookup_register (k : String) : (c.register language).entries.lookup k =
    if key language.name = k then some language else c.entries.lookup k := by
  rw [register, List.lookup_cons]
  split_ifs with same
  · rw [beq_iff_eq.mpr same.symm]
  · rw [beq_eq_false_iff_ne.mpr (Ne.symm same)]
    exact lookup_filter (Ne.symm same) c.entries

theorem lookup_of_languages (k : String) : (ofLanguages languages).entries.lookup k =
    languages.reverse.find? fun language => key language.name == k := by
  induction languages using List.reverseRecOn with
  | nil => rfl
  | append_singleton earlier language ih =>
      rw [ofLanguages, List.foldl_concat, lookup_register, List.reverse_concat, List.find?_cons]
      split_ifs with same
      · rw [beq_iff_eq.mpr same]
      · rw [beq_eq_false_iff_ne.mpr same]
        exact ih

theorem find_ok_iff :
    c.find name = .ok language ↔ c.entries.lookup (key name) = some language := by
  unfold find
  split
  · rename_i found
    rw [found, Except.ok.injEq, Option.some.injEq]
  · rename_i absent
    rw [absent]
    exact iff_of_false nofun nofun

theorem find_of_languages_iff : (ofLanguages languages).find name = .ok language ↔
    languages.reverse.find? (fun language => key language.name == key name) = some language := by
  rw [find_ok_iff, lookup_of_languages]

theorem key_of_find (found : (ofLanguages languages).find name = .ok language) :
    key language.name = key name := by
  simpa using List.find?_some (find_of_languages_iff.mp found)

theorem find_of_same (same : key other = key name) (found : c.find name = .ok language) :
    c.find other = .ok language := by
  rw [find_ok_iff] at *
  rwa [same]

end Languages

end Catalogue

/-! Models. -/

namespace ModelStore

theorem serves_key_iff {m : Model} {name : String}
    (same : Catalogue.key m.lang = Catalogue.key name) :
    serves m (Catalogue.key name) = true ↔ Text.trimString m.lang = m.lang := by
  rw [← same, serves, Catalogue.key, Text.upper_upper, Bool.or_eq_true, beq_iff_eq,
    eq_comm (a := Text.upper m.lang), Text.upper_trim_string_iff, or_iff_right_iff_imp]
  intro empty
  rw [String.isEmpty_iff.mp empty]
  rfl

theorem load_put (s : ModelStore) (path wanted : String) (m : Model) :
    (s.put path (.record m.toRecord)).load path wanted =
      if serves m wanted then .ok m else .error (.otherLanguage path m.lang wanted) := by
  simp only [load, get?_put_self, Model.ofStored, Model.to_model_to_record]
  rfl

end ModelStore

/-! Parsers. -/

namespace Training

/-- Weights are fitted exactly if both classes occur among the samples and the strength is
positive. -/
theorem exists_fit_iff {samples : List Sample} {strength : Binary64} :
    (∃ weights, fit samples strength = .ok weights) ↔
      (∃ s ∈ samples, s.positive = true) ∧ (∃ s ∈ samples, s.positive = false) ∧
        isStrength strength = true := by
  have single : (samples.all (·.positive) || samples.all (!·.positive)) = false ↔
      (∃ s ∈ samples, s.positive = true) ∧ ∃ s ∈ samples, s.positive = false := by
    rw [Bool.or_eq_false_iff, List.all_eq_false, List.all_eq_false, and_comm]
    simp only [Bool.not_eq_true, Bool.not_eq_false']
  rw [← and_assoc, ← single]
  unfold fit
  split
  · rename_i one
    exact iff_of_false nofun fun both => by rw [one] at both; exact nomatch both.1
  · rename_i both
    rw [Bool.not_eq_true] at both
    split
    · rename_i weak
      rw [Bool.not_eq_true'] at weak
      exact iff_of_false nofun fun strong => by rw [weak] at strong; exact nomatch strong.2
    · rename_i strong
      rw [Bool.not_eq_true', Bool.not_eq_false] at strong
      exact iff_of_true ⟨_, rfl⟩ ⟨both, strong⟩

end Training

namespace Catalogue

section Parsers

variable {c : Catalogue} {store : ModelStore} {language : Language} {name directory : String}

theorem train_ok {strength : Binary64} {parser : Parser} {notices : List Notice}
    (trained : c.train name strength = .ok (parser, notices)) :
    ∃ language, c.find name = .ok language ∧ parser.rules = language.rules ∧
      parser.model.lang = language.name ∧
      parser.model.fingerprint = some language.rules.fingerprint := by
  obtain ⟨language, found, rest⟩ := (bind_ok_iff _ _ _).mp trained
  obtain ⟨result, fitted, same⟩ := (bind_ok_iff _ _ _).mp rest
  obtain ⟨_, _, rest⟩ := (bind_ok_iff _ _ _).mp fitted
  obtain ⟨_, _, made⟩ := (bind_ok_iff _ _ _).mp rest
  cases made
  cases same
  exact ⟨language, found, rfl, rfl, rfl⟩

theorem model_path_eq (found : c.find name = .ok language) :
    c.modelPath directory name = .ok (joinPath directory language.modelFile) := by
  rw [modelPath, found]
  rfl

theorem stored_model_put (found : c.find name = .ok language) (m : Model) :
    c.storedModel (store.put (joinPath directory language.modelFile) (.record m.toRecord))
        directory name =
      if ModelStore.serves m (key name) then .ok m
      else .error (.model (.otherLanguage (joinPath directory language.modelFile) m.lang
        (key name))) := by
  rw [storedModel, model_path_eq found, ok_bind, ModelStore.load_put]
  split_ifs <;> rfl

theorem build_of_stored_model (found : c.find name = .ok language) {m : Model}
    (stored : c.storedModel store directory name = .ok m)
    (own : m.fingerprint = some language.rules.fingerprint) :
    c.build store directory name = .ok (⟨language.rules, m⟩, []) := by
  have alike : m.isForOtherRules language.rules.fingerprint = false := by
    simp [Model.isForOtherRules, own]
  rw [build, found, ok_bind, stored, ok_bind, alike]
  rfl

theorem build_of_no_model (found : c.find name = .ok language) {failure : Failure}
    (absent : c.storedModel store directory name = .error failure) :
    c.build store directory name = .error failure := by
  rw [build, found, ok_bind, absent]
  rfl

theorem stored_model_trained (store : ModelStore) (directory : String)
    {languages : List Language} {other : String} {m : Model}
    (found : (ofLanguages languages).find other = .ok language) (lang : m.lang = language.name) :
    (ofLanguages languages).storedModel
        (store.put (joinPath directory language.modelFile) (.record m.toRecord)) directory other =
      if Text.trimString language.name = language.name then .ok m
      else .error (.model (.otherLanguage (joinPath directory language.modelFile) language.name
        (key other))) := by
  have same : key m.lang = key other := by
    rw [lang]
    exact key_of_find found
  rw [stored_model_put found, ← lang]
  exact if_congr (ModelStore.serves_key_iff same) rfl rfl

theorem exists_train_iff (found : c.find name = .ok language) (strength : Binary64) :
    (∃ result, c.train name strength = .ok result) ↔
      ∃ samples notices,
        Sample.ofExamples language.rules Context.training language.examples =
          .ok (samples, notices) ∧
        (∃ s ∈ samples, s.positive = true) ∧ (∃ s ∈ samples, s.positive = false) ∧
          Training.isStrength strength = true := by
  simp only [← Training.exists_fit_iff]
  constructor
  · rintro ⟨result, trained⟩
    rw [train, found, ok_bind] at trained
    obtain ⟨_, fitted, -⟩ := (bind_ok_iff _ _ _).mp trained
    obtain ⟨⟨samples, notices⟩, sampled, rest⟩ := (bind_ok_iff _ _ _).mp fitted
    obtain ⟨weights, fit, -⟩ := (bind_ok_iff _ _ _).mp rest
    exact ⟨samples, notices, sampled, weights, fit⟩
  · rintro ⟨samples, notices, sampled, weights, fitted⟩
    rw [train, found, ok_bind, RuleSet.train, sampled, ok_bind]
    simp only [fitted, ok_bind]
    exact ⟨_, rfl⟩

end Parsers

def unDeux (name : String) : Language :=
  { name
    rules := { rules := [
      ruleOfData "un" [.text (.wholeWord ["un"])] (.constant (.number { value := .int 1 })),
      ruleOfData "deux" [.text (.wholeWord ["deux"])] (.constant (.number { value := .int 2 }))] }
    examples := [⟨["un"], .integer (.int 1)⟩, ⟨["deux"], .integer (.int 3)⟩]
    kinds := [.number]
    modelFile := "fr.pkl" }

theorem un_deux_trains {name called : String}
    (found : (ofLanguages [unDeux name]).find called = .ok (unDeux name)) :
    ∃ parser notices,
      (ofLanguages [unDeux name]).train called unitStrength = .ok (parser, notices) := by
  have classes : (Sample.ofExamples (unDeux name).rules Context.training
      (unDeux name).examples).toOption.map (fun result => result.1.map (·.positive)) =
        some [true, false] := by
    cbv
  obtain ⟨⟨samples, notices⟩, returned, both⟩ := exists_ok_of_map classes
  obtain ⟨right, one, positive⟩ := List.mem_map.mp (both ▸ List.mem_cons_self)
  obtain ⟨wrong, other, negative⟩ :=
    List.mem_map.mp (both ▸ List.mem_cons_of_mem true List.mem_cons_self)
  obtain ⟨⟨parser, notices⟩, trained⟩ := (exists_train_iff found unitStrength).mpr
    ⟨samples, notices, returned, ⟨right, one, positive⟩, ⟨wrong, other, negative⟩, by cbv⟩
  exact ⟨parser, notices, trained⟩

/-- A model trained for a language, under any spelling of its name, and kept where the language has
its model, is loaded under every spelling with the parser as it was, if nothing is trimmed from the
name that was registered. If something is, the model is refused under every spelling. -/
theorem trained_model_loaded (languages : List Language) (name other directory path : String)
    (strength : Binary64) (store : ModelStore) (parser : Parser) (notices : List Notice)
    (same : key other = key name)
    (trained : (ofLanguages languages).train name strength = .ok (parser, notices))
    (placed : (ofLanguages languages).modelPath directory name = .ok path) :
    ∃ language ∈ languages, (ofLanguages languages).find other = .ok language ∧
      parser.model.lang = language.name ∧
      ModelFile.read (ModelFile.render parser.model) = .record parser.model.toRecord ∧
      let saved := store.put path (.record parser.model.toRecord)
      (Text.trimString language.name = language.name →
        (ofLanguages languages).storedModel saved directory other = .ok parser.model ∧
        (ofLanguages languages).build saved directory other = .ok (parser, [])) ∧
      (Text.trimString language.name ≠ language.name →
        (ofLanguages languages).storedModel saved directory other =
          .error (.model (.otherLanguage path language.name (key other))) ∧
        (ofLanguages languages).build saved directory other =
          .error (.model (.otherLanguage path language.name (key other)))) := by
  obtain ⟨language, found, rules, lang, own⟩ := train_ok trained
  have here := find_of_same same found
  have listed := List.mem_reverse.mp (List.mem_of_find?_eq_some (find_of_languages_iff.mp here))
  rw [model_path_eq found, Except.ok.injEq] at placed
  subst placed
  have stored := stored_model_trained store directory here lang
  refine ⟨language, listed, here, lang, ModelFile.read_render _, fun kept => ?_, fun trimmed => ?_⟩
  · rw [if_pos kept] at stored
    have built := build_of_stored_model here stored own
    rw [← rules] at built
    exact ⟨stored, built⟩
  · rw [if_neg trimmed] at stored
    exact ⟨stored, build_of_no_model here stored⟩

/-- The model trained as "FR" is loaded as "fr". -/
theorem un_deux_loaded : key " fr\t" = key "FR" ∧ ∃ parser notices,
    (ofLanguages [unDeux "fr"]).train "FR" unitStrength = .ok (parser, notices) ∧
      (ofLanguages [unDeux "fr"]).modelPath "models" "FR" = .ok "models/fr.pkl" ∧
      let saved := ({} : ModelStore).put "models/fr.pkl" (.record parser.model.toRecord)
      (ofLanguages [unDeux "fr"]).storedModel saved "models" " fr\t" = .ok parser.model ∧
      (ofLanguages [unDeux "fr"]).build saved "models" " fr\t" = .ok (parser, []) := by
  have same : key " fr\t" = key "FR" := by
    decide +kernel
  have found : (ofLanguages [unDeux "fr"]).find "FR" = .ok (unDeux "fr") :=
    find_register _ _ _ (by decide +kernel)
  have placed : (ofLanguages [unDeux "fr"]).modelPath "models" "FR" = .ok "models/fr.pkl" := by
    rw [model_path_eq found]
    decide +kernel
  obtain ⟨parser, notices, trained⟩ := un_deux_trains found
  obtain ⟨language, listed, -, -, -, kept, -⟩ := trained_model_loaded [unDeux "fr"] "FR" " fr\t"
    "models" "models/fr.pkl" unitStrength {} parser notices same trained placed
  rw [List.mem_singleton.mp listed] at kept
  exact ⟨same, parser, notices, trained, placed, kept (by decide +kernel)⟩

/-- Registered as " fr ", the language is found as "FR", but its model is not. -/
theorem blank_un_deux_refused : key "FR" = key " fr " ∧ ∃ parser notices,
    (ofLanguages [unDeux " fr "]).train "FR" unitStrength = .ok (parser, notices) ∧
      (ofLanguages [unDeux " fr "]).modelPath "models" "FR" = .ok "models/fr.pkl" ∧
      (ofLanguages [unDeux " fr "]).storedModel
          (({} : ModelStore).put "models/fr.pkl" (.record parser.model.toRecord)) "models" "FR" =
        .error (.model (.otherLanguage "models/fr.pkl" " fr " "FR")) := by
  have same : key "FR" = key " fr " := by
    decide +kernel
  have found : (ofLanguages [unDeux " fr "]).find "FR" = .ok (unDeux " fr ") :=
    find_register _ _ _ same
  have path : joinPath "models" (unDeux " fr ").modelFile = "models/fr.pkl" := by
    decide +kernel
  obtain ⟨parser, notices, trained⟩ := un_deux_trains found
  obtain ⟨language, own, -, lang, -⟩ := train_ok trained
  rw [← Except.ok.inj (found.symm.trans own)] at lang
  have stored := stored_model_trained {} "models" found lang
  rw [path, if_neg (by decide +kernel), show key "FR" = "FR" by decide +kernel] at stored
  refine ⟨same, parser, notices, trained, ?_, stored⟩
  rw [model_path_eq found, path]

end Catalogue

end Reckon
