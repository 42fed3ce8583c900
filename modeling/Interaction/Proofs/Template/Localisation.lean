import Interaction.Proofs.Table
import Interaction.Template.Basic

/-!
# Which phrase is shown

A listed document keeps the phrases of a message as they come, and shows the first one in American
English or else the last one there is. A keyed document keeps one phrase of each language, the last,
in the order of the language tags, so it shows the last one in American English or else the last one
of the greatest tag. The two agree exactly where these phrases do.
-/

namespace Interaction

namespace Message

/-- Whether a phrase is in the language that is preferred. -/
def isPreferred (phrase : Phrase) : Bool :=
  phrase.tag == defaultLanguage

/-- The phrases of a key, in the order in which they come. -/
def phrasesOf (messages : List Message) (key : String) : List Phrase :=
  (messages.filter fun m => m.key == key).flatMap phrases

/-- Whether it makes no difference which phrase in the preferred language is shown or, if there is
none, whether the last phrase is or the last one of the greatest language tag. -/
structure IsSettled (found : List Phrase) : Prop where
  preferred : ∀ first ∈ (found.filter isPreferred).head?,
    ∀ last ∈ (found.filter isPreferred).getLast?, Text.trim first.text = Text.trim last.text
  otherwise : found.filter isPreferred = [] → ∀ last ∈ found.getLast?,
    ∀ greatest ∈ (found.mergeSort fun a b => a.tag ≤ b.tag).getLast?,
      Text.trim last.text = Text.trim greatest.text

theorem lookup_eq (messages : List Message) (key placeholder : String) :
    lookup messages key placeholder = Text.trim (((((phrasesOf messages key).find?
      isPreferred).orElse fun _ => (phrasesOf messages key).getLast?).map Phrase.text).getD
        placeholder) :=
  rfl

end Message

namespace Keyed.Texts

open Message

/-- The phrases that are kept of some phrases. -/
def kept (found : List Phrase) : List Phrase :=
  (Table.ofList (found.map fun t => (t.tag, t.text))).entries.map fun entry => ⟨entry.1, entry.2⟩

theorem find?_kept (found : List Phrase) :
    (kept found).find? isPreferred = (found.filter isPreferred).getLast? := by
  have hentry : (isPreferred ∘ fun entry : String × String => Phrase.mk entry.1 entry.2) =
      fun entry => entry.1 == defaultLanguage := rfl
  have hpreferred : ((fun entry : String × String => decide (entry.1 = defaultLanguage)) ∘
      fun t : Phrase => (t.tag, t.text)) = isPreferred := rfl
  rw [kept, List.find?_map, hentry, Table.find?_entries, Table.get?_ofList, List.filter_map,
    hpreferred, List.getLast?_map]
  cases hlast : (found.filter isPreferred).getLast? with
  | none => rfl
  | some last =>
      have htag := (List.mem_filter.1 (List.mem_of_getLast? hlast)).2
      rw [isPreferred, beq_iff_eq] at htag
      rw [Option.map_some, Option.map_some, Option.map_some, Option.map_some, ← htag]

theorem getLast?_kept (found : List Phrase) :
    (kept found).getLast? = (found.mergeSort fun a b => a.tag ≤ b.tag).getLast? := by
  rw [kept, List.getLast?_map, Table.getLast?_entries_ofList,
    ← List.map_mergeSort (r := fun a b : Phrase => a.tag ≤ b.tag) fun _ _ _ _ => rfl,
    List.getLast?_map, Option.map_map]
  exact Option.map_id'

theorem phrases_collect (messages : List Message) (key : String) :
    (message key (collect messages key)).flatMap Message.phrases =
      kept (phrasesOf messages key) := by
  rw [collect]
  split
  next hnone =>
    rw [phrasesOf, hnone]
    rfl
  next => exact List.flatMap_singleton _ _

theorem filter_message (key other : String) (text : Option (Table String)) :
    ((message key text).filter fun m => m.key == other) =
      if key = other then message key text else [] := by
  cases text with
  | none => rw [message, List.filter_nil, ite_self]
  | some table =>
      by_cases hkey : key = other
      · simp [message, hkey]
      · simp [message, hkey]

/-- Of the phrases of a title or a description those are kept that count. -/
theorem phrasesOf_toMessages (messages : List Message) :
    phrasesOf (ofMessages messages).toMessages "title" = kept (phrasesOf messages "title") ∧
      phrasesOf (ofMessages messages).toMessages "description" =
        kept (phrasesOf messages "description") := by
  constructor
  · rw [phrasesOf, toMessages, ofMessages, List.filter_append, filter_message, filter_message,
      if_pos rfl, if_neg (by decide), List.append_nil, phrases_collect]
  · rw [phrasesOf, toMessages, ofMessages, List.filter_append, filter_message, filter_message,
      if_pos rfl, if_neg (by decide), List.nil_append, phrases_collect]

/-- What is kept shows the same phrase as what it is kept of if it makes no difference which one is
shown, and in no other case. -/
theorem lookup_eq_iff {messages others : List Message} {key : String}
    (h : phrasesOf others key = kept (phrasesOf messages key)) :
    (∀ placeholder, lookup others key placeholder = lookup messages key placeholder) ↔
      IsSettled (phrasesOf messages key) := by
  simp only [lookup_eq, h, find?_kept, getLast?_kept]
  generalize phrasesOf messages key = found
  have hhead : (found.filter isPreferred).head? = found.find? isPreferred := List.head?_filter
  cases hfirst : found.find? isPreferred with
  | some first =>
      rw [hfirst] at hhead
      obtain ⟨last, hlast⟩ : ∃ last, (found.filter isPreferred).getLast? = some last :=
        ⟨_, List.getLast?_eq_some_getLast (List.ne_nil_of_mem (List.mem_of_head? hhead))⟩
      rw [hlast]
      constructor
      · intro hshown
        refine ⟨?_, fun hnil => ?_⟩
        · rw [hhead, hlast]
          rintro _ ⟨⟩ _ ⟨⟩
          exact (hshown "").symm
        · rw [hnil] at hlast
          cases hlast
      · intro hsettled _
        exact (hsettled.preferred first hhead last hlast).symm
  | none =>
      rw [hfirst, List.head?_eq_none_iff] at hhead
      rw [hhead]
      cases hlast : found.getLast? with
      | none =>
          rw [List.getLast?_eq_none_iff.1 hlast, List.mergeSort_nil]
          exact iff_of_true (fun _ => rfl) ⟨nofun, nofun⟩
      | some last =>
          obtain ⟨greatest, hgreatest⟩ : ∃ greatest,
              (found.mergeSort fun a b => a.tag ≤ b.tag).getLast? = some greatest :=
            ⟨_, List.getLast?_eq_some_getLast (List.ne_nil_of_mem
              ((List.mergeSort_perm found _).mem_iff.2 (List.mem_of_getLast? hlast)))⟩
          rw [hgreatest]
          constructor
          · intro hshown
            refine ⟨?_, fun _ => ?_⟩
            · rw [hhead]
              nofun
            · rw [hlast, hgreatest]
              rintro _ ⟨⟩ _ ⟨⟩
              exact (hshown "").symm
          · intro hsettled _
            exact (hsettled.otherwise hhead last hlast greatest hgreatest).symm

end Keyed.Texts

/-- A title or a description is shown alike by both documents if it makes no difference which of
its phrases is, and in no other case. -/
theorem Draft.localised_iff (draft : Draft) :
    ((∀ placeholder, Message.title (Template.ofDraft { draft with format := .keyed }).view.messages
        placeholder =
      Message.title (Template.ofDraft { draft with format := .listed }).view.messages
        placeholder) ↔ Message.IsSettled (Message.phrasesOf draft.messages "title")) ∧
    ((∀ placeholder, Message.description
        (Template.ofDraft { draft with format := .keyed }).view.messages placeholder =
      Message.description (Template.ofDraft { draft with format := .listed }).view.messages
        placeholder) ↔ Message.IsSettled (Message.phrasesOf draft.messages "description")) := by
  obtain ⟨htitle, hdescription⟩ := Keyed.Texts.phrasesOf_toMessages draft.messages
  exact ⟨Keyed.Texts.lookup_eq_iff htitle, Keyed.Texts.lookup_eq_iff hdescription⟩

/-- A title in two languages, which are not in the order of their tags. -/
def greetingDraft : Draft where
  messages := [⟨"title", [⟨"fr-FR", "Bonjour"⟩, ⟨"de-DE", "Hallo"⟩]⟩]

theorem title_ne_of_unordered :
    Message.title (Template.ofDraft { greetingDraft with format := .keyed }).view.messages "" =
        "Bonjour" ∧
      Message.title (Template.ofDraft { greetingDraft with format := .listed }).view.messages "" =
        "Hallo" := by
  decide +kernel

end Interaction
