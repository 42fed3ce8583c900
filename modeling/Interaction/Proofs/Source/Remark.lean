import Interaction.Proofs.Source.Imports
import Interaction.Proofs.Source.Keys
import Interaction.Proofs.Text.Trim
import Mathlib.Data.Bool.AllAny

/-!
# What the tags of a metadata block say

A tag says at most one thing, either of the interaction or of a parameter, and a tag with an unknown
key says nothing. What is known in the end is for each text the last remark that sets it, and of
each parameter the last that set its texts, in the order in which the parameters were first
remarked on.
-/

namespace Interaction

namespace Source

/-! ### Remarks -/

/-- What a metadata block may say of a parameter. -/
inductive Aspect where
  | title
  | description
  | balance
  deriving DecidableEq, Repr

namespace Aspect

def name : Aspect → String
  | title => "title"
  | description => "description"
  | balance => "balance"

def set (p : ParameterMetadata) (value : String) : Aspect → ParameterMetadata
  | title => { p with title := some value }
  | description => { p with description := some value }
  | balance => { p with balance := some value }

end Aspect

/-- What a tag says. -/
inductive Remark where
  | text (key : TextKey) (value : String)
  | parameter (name : String) (aspect : Aspect) (value : String)
  | nothing
  deriving DecidableEq, Repr

/-- Whether a value is `label: text`, the label a run of letters, digits and underscores and the
text not blank, with blanks around both. -/
def Labels (value : List Char) (label text : String) : Prop :=
  ∃ before after, value = before ++ ':' :: after ∧ Text.trimChars before = label.toList ∧
    Text.trimChars after = text.toList ∧ label ≠ "" ∧ (∀ c ∈ label.toList, isWordChar c = true) ∧
      text ≠ ""

/-- What a tag says with a key and a value that has been trimmed. -/
inductive Says : String → List Char → Remark → Prop
  | version (value : List Char) : Says "f_version" value (.text .version (String.ofList value))
  | language (value : List Char) : Says "lang" value (.text .language (String.ofList value))
  | message {key : TextKey} {value : List Char} {text : String}
      (hkey : key = .title ∨ key = .description) (h : Labels value key.name text) :
      Says "message" value (.text key text)
  | parameter {aspect : Aspect} {blank : Char} {rest : List Char} {name text : String}
      (haspect : aspect ≠ .balance) (hblank : Text.isBlank blank = true)
      (h : Labels rest name text) :
      Says "parameter" (aspect.name.toList ++ blank :: rest) (.parameter name aspect text)
  | balance {value : List Char} {name text : String} (h : Labels value name text) :
      Says "balance" value (.parameter name .balance text)
  | other {key : String} (value : List Char)
      (h : key ∉ ["f_version", "lang", "message", "parameter", "balance"]) :
      Says key value .nothing

namespace Remark

/-- What is known with one more remark. -/
def add (known : Metadata) : Remark → Metadata
  | text key value => key.set known value
  | parameter name aspect value =>
    { known with
      parameters := Tag.updateParameter name (fun p => aspect.set p value) known.parameters }
  | nothing => known

def text? (key : TextKey) : Remark → Option String
  | text other value => if other = key then some value else none
  | _ => none

def about? (name : String) (aspect : Aspect) : Remark → Option String
  | parameter other a value => if other = name ∧ a = aspect then some value else none
  | _ => none

/-- The parameter a remark is about. -/
def subject? : Remark → Option String
  | parameter name _ _ => some name
  | _ => none

/-- The last text among some remarks. -/
def last (text : Remark → Option String) (remarks : List Remark) : Option String :=
  remarks.reverse.findSome? text

/-- What is said of a parameter, each text by the last remark that sets it. -/
def described (remarks : List Remark) (name : String) : ParameterMetadata where
  name := name
  title := last (about? name .title) remarks
  description := last (about? name .description) remarks
  balance := last (about? name .balance) remarks

/-- All that is said, each text by the last remark that sets it, and the parameters in the order in
which they are first remarked on. -/
def summary (remarks : List Remark) : Metadata where
  version := last (text? .version) remarks
  title := last (text? .title) remarks
  description := last (text? .description) remarks
  language := last (text? .language) remarks
  parameters := (remarks.filterMap subject?).eraseDups.map (described remarks)

end Remark

variable {value before after : List Char} {key label name text : String} {remark : Remark}
  {remarks : List Remark}

/-! ### Tags that say something -/

theorem not_colon_of_trimChars (h : ∀ c ∈ Text.trimChars before, isWordChar c = true) :
    ∀ c ∈ before, (c == ':') = false := by
  intro c hc
  refine beq_false_of_ne ?_
  rintro rfl
  exact absurd (h ':' (Text.mem_trimChars hc (by decide))) (by decide)

theorem labelled?_of_split (h : Text.splitAtFirst? (· == ':') value = some (before, after)) :
    Tag.labelled? value =
      if Text.trimChars before ≠ [] ∧ Text.trimChars after ≠ [] ∧
          (Text.trimChars before).all isWordChar then
        some (String.ofList (Text.trimChars before), String.ofList (Text.trimChars after))
      else none := by
  rw [Tag.labelled?, h]
  rfl

theorem labelled?_eq_some_iff :
    Tag.labelled? value = some (label, text) ↔ Labels value label text := by
  constructor
  · intro h
    obtain ⟨⟨before, after⟩, hsplit, -⟩ := Option.bind_eq_some_iff.1 h
    rw [labelled?_of_split hsplit] at h
    obtain ⟨c, rfl, hc, -⟩ := Text.splitAtFirst?_eq_some_iff.1 hsplit
    obtain rfl := beq_iff_eq.1 hc
    split at h
    next hall =>
      obtain ⟨hlabel, htext, hword⟩ := hall
      cases h
      have hne {cs : List Char} (hcs : cs ≠ []) : String.ofList cs ≠ "" :=
        fun heq => hcs (String.ofList_eq_empty_iff.1 heq)
      refine ⟨before, after, rfl, String.toList_ofList.symm, String.toList_ofList.symm,
        hne hlabel, ?_, hne htext⟩
      rw [String.toList_ofList]
      exact List.all_eq_true.1 hword
    next => cases h
  · rintro ⟨before, after, rfl, hlabel, htext, hlabelne, hword, htextne⟩
    have hsplit : Text.splitAtFirst? (· == ':') (before ++ ':' :: after) = some (before, after) :=
      Text.splitAtFirst?_eq_some_iff.2 ⟨':', rfl, rfl, not_colon_of_trimChars (hlabel ▸ hword)⟩
    have hne {t : String} (ht : t ≠ "") : t.toList ≠ [] :=
      fun heq => ht (String.toList_eq_nil_iff.1 heq)
    rw [labelled?_of_split hsplit, hlabel, htext,
      if_pos ⟨hne hlabelne, hne htextne, List.all_eq_true.2 hword⟩, String.ofList_toList,
      String.ofList_toList]

/-- Blanks around a value make no difference to its label and its text. -/
theorem labelled?_trimChars (value : List Char) :
    Tag.labelled? (Text.trimChars value) = Tag.labelled? value := by
  cases hsplit : Text.splitAtFirst? (· == ':') value with
  | none =>
      have hall := Text.splitAtFirst?_eq_none_iff.1 hsplit
      have htrim : Text.splitAtFirst? (· == ':') (Text.trimChars value) = none :=
        Text.splitAtFirst?_eq_none_iff.2 fun c hc => hall c (Text.mem_of_mem_trimChars hc)
      rw [Tag.labelled?, Tag.labelled?, hsplit, htrim]
  | some halves =>
      obtain ⟨before, after⟩ := halves
      obtain ⟨c, rfl, hc, hbefore⟩ := Text.splitAtFirst?_eq_some_iff.1 hsplit
      obtain rfl := beq_iff_eq.1 hc
      have htrim : Text.splitAtFirst? (· == ':') (Text.trimChars (before ++ ':' :: after)) =
          some (before.dropWhile Text.isBlank, after.rdropWhile Text.isBlank) := by
        rw [Text.trimChars_append_cons (by decide)]
        exact Text.splitAtFirst?_eq_some_iff.2 ⟨':', rfl, rfl, fun d hd =>
          hbefore d ((List.dropWhile_suffix _).subset hd)⟩
      rw [labelled?_of_split hsplit, labelled?_of_split htrim, Text.trimChars_dropWhile,
        Text.trimChars_rdropWhile]

/-! ### What a tag does -/

theorem describeMessage?_eq_some_iff {known more : Metadata} :
    Tag.describeMessage? known value = some more ↔
      ∃ key text, (key = .title ∨ key = .description) ∧ Labels value key.name text ∧
        more = TextKey.set known text key := by
  constructor
  · intro h
    obtain ⟨⟨label, text⟩, hlabelled, h⟩ := Option.bind_eq_some_iff.1 h
    have hlabels := labelled?_eq_some_iff.1 hlabelled
    split at h
    next heq =>
      cases h
      obtain ⟨rfl, rfl⟩ := Prod.mk.inj heq
      exact ⟨.title, text, .inl rfl, hlabels, rfl⟩
    next heq =>
      cases h
      obtain ⟨rfl, rfl⟩ := Prod.mk.inj heq
      exact ⟨.description, text, .inr rfl, hlabels, rfl⟩
    next => cases h
  · rintro ⟨key, text, hkey, hlabels, rfl⟩
    rw [Tag.describeMessage?, labelled?_eq_some_iff.2 hlabels]
    rcases hkey with rfl | rfl <;> rfl

theorem describeParameter?_eq_some_iff {known more : Metadata} :
    Tag.describeParameter? known value = some more ↔
      ∃ aspect blank rest name text, aspect ≠ .balance ∧ Text.isBlank blank = true ∧
        value = aspect.name.toList ++ blank :: rest ∧ Labels rest name text ∧
          more = Remark.add known (.parameter name aspect text) := by
  constructor
  · intro h
    obtain ⟨⟨before, after⟩, hsplit, h⟩ := Option.bind_eq_some_iff.1 h
    obtain ⟨⟨name, text⟩, hlabelled, hmore⟩ := Option.bind_eq_some_iff.1 h
    obtain ⟨blank, rfl, hblank, -⟩ := Text.splitAtFirst?_eq_some_iff.1 hsplit
    rw [labelled?_trimChars] at hlabelled
    have hlabels := labelled?_eq_some_iff.1 hlabelled
    have hfield {field : String} (heq : String.ofList before = field) : before = field.toList := by
      rw [← heq, String.toList_ofList]
    split at hmore
    next heq =>
      cases hmore
      exact ⟨.title, blank, after, name, text, by decide, hblank, hfield heq ▸ rfl, hlabels, rfl⟩
    next heq =>
      cases hmore
      exact ⟨.description, blank, after, name, text, by decide, hblank, hfield heq ▸ rfl, hlabels,
        rfl⟩
    next => cases hmore
  · rintro ⟨aspect, blank, rest, name, text, haspect, hblank, rfl, hlabels, rfl⟩
    have hsplit : Text.splitAtFirst? Text.isBlank (aspect.name.toList ++ blank :: rest) =
        some (aspect.name.toList, rest) := by
      have hname : ∀ c ∈ aspect.name.toList, Text.isBlank c = false :=
        List.all_iff_forall_prop.1 (by cases aspect <;> decide)
      exact Text.splitAtFirst?_eq_some_iff.2 ⟨blank, rfl, hblank, hname⟩
    have hlabelled : Tag.labelled? (Text.trimChars rest) = some (name, text) := by
      rw [labelled?_trimChars, labelled?_eq_some_iff.2 hlabels]
    rw [Tag.describeParameter?, hsplit]
    simp only [Option.bind_eq_bind, Option.bind_some, hlabelled, String.ofList_toList]
    cases aspect with
    | title => rfl
    | description => rfl
    | balance => contradiction

theorem describeBalance?_eq_some_iff {known more : Metadata} :
    Tag.describeBalance? known value = some more ↔
      ∃ name text, Labels value name text ∧
        more = Remark.add known (.parameter name .balance text) := by
  constructor
  · intro h
    obtain ⟨⟨name, text⟩, hlabelled, h⟩ := Option.bind_eq_some_iff.1 h
    cases h
    exact ⟨name, text, labelled?_eq_some_iff.1 hlabelled, rfl⟩
  · rintro ⟨name, text, hlabels, rfl⟩
    rw [Tag.describeBalance?, labelled?_eq_some_iff.2 hlabels]
    rfl

/-- A tag adds what it says to what is known, and fails if it says nothing that can be read. -/
theorem describe?_eq_some_iff {known more : Metadata} :
    Tag.describe? known key value = some more ↔
      ∃ remark, Says key value remark ∧ more = Remark.add known remark := by
  constructor
  · intro h
    unfold Tag.describe? at h
    split at h
    · cases h
      exact ⟨_, .version value, rfl⟩
    · cases h
      exact ⟨_, .language value, rfl⟩
    · obtain ⟨key, text, hkey, hlabels, rfl⟩ := describeMessage?_eq_some_iff.1 h
      exact ⟨_, .message hkey hlabels, rfl⟩
    · obtain ⟨aspect, blank, rest, name, text, haspect, hblank, rfl, hlabels, rfl⟩ :=
        describeParameter?_eq_some_iff.1 h
      exact ⟨_, .parameter haspect hblank hlabels, rfl⟩
    · obtain ⟨name, text, hlabels, rfl⟩ := describeBalance?_eq_some_iff.1 h
      exact ⟨_, .balance hlabels, rfl⟩
    · cases h
      refine ⟨.nothing, .other value ?_, rfl⟩
      simp_all
  · rintro ⟨remark, hsaid, rfl⟩
    cases hsaid with
    | version => rfl
    | language => rfl
    | message hkey hlabels =>
        exact describeMessage?_eq_some_iff.2 ⟨_, _, hkey, hlabels, rfl⟩
    | parameter haspect hblank hlabels =>
        exact describeParameter?_eq_some_iff.2 ⟨_, _, _, _, _, haspect, hblank, rfl, hlabels, rfl⟩
    | balance hlabels => exact describeBalance?_eq_some_iff.2 ⟨_, _, hlabels, rfl⟩
    | other _ hkey =>
        simp only [List.mem_cons, not_or] at hkey
        obtain ⟨hversion, hlanguage, hmessage, hparameter, hbalance, -⟩ := hkey
        rw [Tag.describe?]
        · rfl
        · exact hversion
        · exact hlanguage
        · exact hmessage
        · exact hparameter
        · exact hbalance

/-! ### What is known in the end -/

namespace Remark

variable {known : Metadata} {done : List Remark} {aspect : Aspect}

theorem last_append_singleton (text : Remark → Option String) (done : List Remark)
    (remark : Remark) : last text (done ++ [remark]) = (text remark).or (last text done) := by
  rw [last, List.reverse_append, List.reverse_singleton, List.findSome?_append,
    List.findSome?_singleton, last]

theorem described_append_of_ne {name : String} (h : remark.subject? ≠ some name)
    (done : List Remark) : described (done ++ [remark]) name = described done name := by
  have hnone (aspect : Aspect) : about? name aspect remark = none := by
    cases remark with
    | parameter other a value => exact if_neg fun heq => h (congrArg some heq.1)
    | _ => rfl
  simp only [described, last_append_singleton, hnone, Option.none_or]

theorem described_append_self (done : List Remark) (name value : String) (aspect : Aspect) :
    described (done ++ [parameter name aspect value]) name =
      aspect.set (described done name) value := by
  simp only [described, last_append_singleton, about?]
  cases aspect <;> rfl

/-- A parameter that nothing was said of is known by its name. -/
theorem described_of_not_mem (h : name ∉ done.filterMap subject?) :
    described done name = { name := name } := by
  induction done using List.reverseRecOn with
  | nil => rfl
  | append_singleton done remark ih =>
      rw [List.filterMap_append, List.mem_append, not_or] at h
      have hne : remark.subject? ≠ some name := fun heq => h.2 (by simp [heq])
      rw [described_append_of_ne hne, ih h.1]

theorem updateParameter_of_mem {f : String → ParameterMetadata} (hf : ∀ n, (f n).name = n)
    {names : List String} (hnodup : names.Nodup) (h : name ∈ names)
    (change : ParameterMetadata → ParameterMetadata) :
    Tag.updateParameter name change (names.map f) =
      names.map fun n => if n = name then change (f n) else f n := by
  induction names with
  | nil => cases h
  | cons n names ih =>
      obtain ⟨hn, hnodup⟩ := List.nodup_cons.1 hnodup
      rw [List.map_cons, List.map_cons, Tag.updateParameter, hf]
      split
      next heq =>
        congr 1
        refine List.map_congr_left fun m hm => (if_neg ?_).symm
        rintro rfl
        exact hn (heq ▸ hm)
      next hne => rw [ih hnodup ((List.mem_cons.1 h).resolve_left (Ne.symm hne))]

theorem updateParameter_of_not_mem {f : String → ParameterMetadata} (hf : ∀ n, (f n).name = n)
    {names : List String} (h : name ∉ names) (change : ParameterMetadata → ParameterMetadata) :
    Tag.updateParameter name change (names.map f) = names.map f ++ [change { name := name }] := by
  induction names with
  | nil => rfl
  | cons n names ih =>
      obtain ⟨hne, hmore⟩ := not_or.1 (mt List.mem_cons.2 h)
      rw [List.map_cons, Tag.updateParameter, hf, if_neg (Ne.symm hne), ih hmore, List.cons_append]

/-- One more remark on a parameter. -/
theorem updateParameter_described (done : List Remark) (name value : String) (aspect : Aspect) :
    Tag.updateParameter name (fun p => aspect.set p value)
        ((done.filterMap subject?).eraseDups.map (described done)) =
      ((done ++ [parameter name aspect value]).filterMap subject?).eraseDups.map
        (described (done ++ [parameter name aspect value])) := by
  have hname (n : String) : (described done n).name = n := rfl
  have hother {n : String} (hne : n ≠ name) :
      described (done ++ [parameter name aspect value]) n = described done n := by
    have hsubject : subject? (parameter name aspect value) ≠ some n :=
      fun heq => hne (Option.some.inj heq).symm
    exact described_append_of_ne hsubject done
  rw [List.filterMap_append]
  change _ = List.map _ (done.filterMap subject? ++ [name]).eraseDups
  rw [eraseDups_append_singleton]
  split
  next hmem =>
    rw [updateParameter_of_mem hname (nodup_eraseDups _) (List.mem_eraseDups.2 hmem)]
    refine List.map_congr_left fun n _ => ?_
    split
    next heq => rw [heq, described_append_self]
    next hne => rw [hother hne]
  next hmem =>
    rw [updateParameter_of_not_mem hname (mt List.mem_eraseDups.1 hmem), List.map_append,
      List.map_singleton, described_append_self, described_of_not_mem hmem]
    congr 1
    refine List.map_congr_left fun n hn => (hother ?_).symm
    rintro rfl
    exact hmem (List.mem_eraseDups.1 hn)

theorem add_summary (done : List Remark) (remark : Remark) :
    add (summary done) remark = summary (done ++ [remark]) := by
  have hparameters (h : remark.subject? = none) :
      (summary (done ++ [remark])).parameters = (summary done).parameters := by
    have hdescribed : described (done ++ [remark]) = described done :=
      funext fun name => described_append_of_ne (by rw [h]; exact nofun) done
    rw [summary, summary, hdescribed, List.filterMap_append, List.filterMap_cons, h]
    simp
  cases remark with
  | text key value =>
      have hsame := hparameters rfl
      simp only [summary] at hsame
      simp only [summary, last_append_singleton, hsame]
      cases key <;> rfl
  | parameter name aspect value =>
      simp only [add, summary, updateParameter_described, last_append_singleton, text?,
        Option.none_or]
  | nothing =>
      have hsame := hparameters rfl
      simp only [summary] at hsame
      simp only [summary, last_append_singleton, hsame]
      rfl

/-- Remarks that are added one after the other come to their summary. -/
theorem foldl_add (remarks : List Remark) : remarks.foldl add {} = summary remarks := by
  induction remarks using List.reverseRecOn with
  | nil => rfl
  | append_singleton done remark ih => rw [List.foldl_concat, ih, add_summary]

end Remark

end Source

end Interaction
