import Interaction.Proofs.Template.Decoding
import Interaction.Proofs.Template.Range
import Interaction.Proofs.Text.Utf8
import Mathlib

/-!
# Reading a template back

`parse_render` says what comes of reading a template that was written: it is the template itself,
unless the text is nested more deeply than a reader may enter. Beside the range of the numbers this
rests on the version tag: it names the format of the document, since both readings of a document
take it from the same member.
-/

namespace Interaction

open Json (Layout Symbol)

namespace Json.Decoder

variable {α ρ : Type}

theorem run_render {v : Json} (h : v.FitsWords) (layout : Layout) (d : Decoder α) :
    run d ((v.render layout).toList.map some) = d maxDepth v.outline := by
  rw [run, Json.parse_render h]
  simp only
  cases d maxDepth v.outline <;> rfl

theorem of_run {d : Decoder α} {input : List Symbol} {a : α} (h : run d input = .ok a) :
    d maxDepth (Outline.parse input).1 = .ok a := by
  rw [run] at h
  obtain ⟨b, hb, h⟩ := bind_eq_ok_iff.1 h
  split at h
  · cases h
    exact hb
  · cases h

end Json.Decoder

namespace Template

open Json.Decoder

/-! ### The version tag -/

/-- The one field that is read for the tag. -/
def versionField : Json.Decoder.Field (Option String) :=
  defaulted "f_version" (nullable Json.Decoder.string) fun v _ => v

theorem decodeVersion_eq : decodeVersion = record "VersionTag" [versionField] none :=
  rfl

/-- The tag of a written document is read back, however deep its contents are. -/
theorem decodeVersion_outline (type version id : String) (contents : Json) :
    decodeVersion maxDepth (Json.object [("f_type", .string type), ("f_version", .string version),
      ("id", .string id), ("data", contents)]).outline = .ok (some version) := by
  have hother : ∀ key : String, key ≠ "f_version" → ∀ field ∈ [versionField], field.key ≠ key := by
    intro key hkey field hfield
    rw [List.mem_singleton.1 hfield]
    exact hkey.symm
  have hfield : versionField ∈ [versionField] := .head _
  have hread : ∀ more : List (String × Json), members [versionField] 126 [] none
      (Json.memberOutlines (("f_version", .string version) :: more)) =
        members [versionField] 126 ["f_version"] (some version) (Json.memberOutlines more) :=
    fun more => members_read (by decide) hfield List.not_mem_nil
  rw [decodeVersion_eq, maxDepth, Json.outline, record, members_skip (hother "f_type" (by decide)),
    hread, members_skip (hother "id" (by decide)), members_skip (hother "data" (by decide))]
  rfl

theorem detectVersion_render {t : Template} (hfits : t.FitsWords)
    (hversion : t.storedVersion = t.format.tag) (layout : Layout) :
    detectVersion ((t.toJson.render layout).toList.map some) = .ok t.format := by
  have htag : decodeVersion maxDepth t.toJson.outline = .ok (some t.format.tag) := by
    rw [← hversion]
    cases t with
    | keyed document => exact decodeVersion_outline _ _ _ _
    | listed document => exact decodeVersion_outline _ _ _ _
  rw [detectVersion, run_render (fitsWords_toJson hfits), htag]
  cases t.format <;> rfl

theorem parseAs_render {t : Template} (hfits : t.FitsWords) (layout : Layout) :
    parseAs t.format ((t.toJson.render layout).toList.map some) =
      if t.toJson.depth ≤ maxDepth then .ok t
      else .error (.malformed (some t.format) .unreadable) := by
  have hjson : t.toJson.FitsWords := fitsWords_toJson hfits
  cases t with
  | keyed document =>
      have hdecodes : Keyed.Document.decode maxDepth document.toJson.outline =
          within maxDepth document.toJson.depth document := document.decodes
      rw [toJson] at hjson ⊢
      rw [format, parseAs, run_render hjson, hdecodes, within]
      split <;> rfl
  | listed document =>
      have hdecodes : Listed.Document.decode maxDepth document.toJson.outline =
          within maxDepth document.toJson.depth document := document.decodes
      rw [toJson] at hjson ⊢
      rw [format, parseAs, run_render hjson, hdecodes, within]
      split <;> rfl

/-- What comes of reading a written template: the template, unless the text is too deep. -/
theorem parse_render {t : Template} (hfits : t.FitsWords)
    (hversion : t.storedVersion = t.format.tag) (layout : Layout) :
    parse ((t.toJson.render layout).toList.map some) =
      if t.toJson.depth ≤ maxDepth then .ok t
      else .error (.malformed (some t.format) .unreadable) := by
  rw [parse, detectVersion_render hfits hversion layout]
  exact parseAs_render hfits layout

/-! ### The version of a document that was read -/

theorem of_string {depth : Nat} {o : Json.Outline} {s : String}
    (h : Json.Decoder.string depth o = .ok s) : o = .string (some s) := by
  rw [Json.Decoder.string.eq_def] at h
  split at h
  · cases h
    rfl
  · cases h

variable {members : List (Option String × Json.Outline)} {depth : Nat}

/-- A tag was read from the member of its key. -/
theorem lookup_of_versionField {tag : String} (hfits : ∀ member ∈ members, member.2.FitsWords)
    (h : Json.Decoder.members [versionField] depth [] none members = .ok (some tag)) :
    members.lookup (some "f_version") = some (.string (some tag)) := by
  have honly : ∀ field ∈ [versionField], field = versionField := fun _ => List.mem_singleton.1
  have hread := get_of_members versionField (fun tag => tag) (.head _)
    (fun field hfield _ => honly field hfield)
    (fun field hfield hne => absurd (congrArg Json.Decoder.Field.key (honly field hfield)) hne)
    hfits List.not_mem_nil h
  rcases hread with ⟨o, hlookup, r, r', hdecode, rfl⟩ | ⟨-, -, hnone⟩
  · obtain ⟨found, hfound, hsome⟩ := map_eq_ok_iff.1 hdecode
    change found = some tag at hsome
    subst hsome
    rw [nullable.eq_def] at hfound
    split at hfound
    · cases hfound
    · obtain ⟨s, hs, hsome⟩ := map_eq_ok_iff.1 hfound
      cases hsome
      rw [← of_string hs]
      exact hlookup
  · cases hnone

section

variable {ρ α : Type}

/-- The fields that the documents of both formats have. -/
def documentFields (putType putVersion putId : String → ρ → ρ) (d : Json.Decoder α)
    (putData : α → ρ → ρ) : List (Json.Decoder.Field ρ) :=
  [required "f_type" Json.Decoder.string putType, required "f_version" Json.Decoder.string putVersion,
    defaulted "id" Json.Decoder.string putId, required "data" d putData]

variable {get : ρ → String} {putType putVersion putId : String → ρ → ρ}
  {d : Json.Decoder α} {putData : α → ρ → ρ} {start r : ρ} {name tag : String} {o : Json.Outline}

/-- The version of a document was read from the member of the same key. -/
theorem lookup_of_documentFields (hfits : ∀ member ∈ members, member.2.FitsWords)
    (hversion : ∀ s r, get (putVersion s r) = s) (htype : ∀ s r, get (putType s r) = get r)
    (hid : ∀ s r, get (putId s r) = get r) (hdata : ∀ a r, get (putData a r) = get r)
    (h : Json.Decoder.members (documentFields putType putVersion putId d putData) depth [] start
      members = .ok r) :
    members.lookup (some "f_version") = some (.string (some (get r))) := by
  have hother : ∀ other ∈ documentFields putType putVersion putId d putData,
      other = required "f_version" Json.Decoder.string putVersion ∨
        other.key ≠ "f_version" ∧ ∀ b, Keeps other fun r => get r = b := by
    intro other hmem
    simp only [documentFields, List.mem_cons, List.not_mem_nil, or_false] at hmem
    rcases hmem with rfl | rfl | rfl | rfl
    · exact .inr ⟨(by decide : "f_type" ≠ "f_version"),
        fun b => keeps_required_of_put fun s r hr => (htype s r).trans hr⟩
    · exact .inl rfl
    · exact .inr ⟨(by decide : "id" ≠ "f_version"),
        fun b => keeps_defaulted_of_put fun s r hr => (hid s r).trans hr⟩
    · exact .inr ⟨(by decide : "data" ≠ "f_version"),
        fun b => keeps_required_of_put fun a r hr => (hdata a r).trans hr⟩
  have hread := get_of_members (required "f_version" Json.Decoder.string putVersion) get
    (.tail _ (.head _))
    (fun other hmem hkey => (hother other hmem).resolve_right fun hne => hne.1 hkey)
    (fun other hmem hne => ((hother other hmem).resolve_left fun heq => hne (heq ▸ rfl)).2)
    hfits List.not_mem_nil h
  rcases hread with ⟨o, hlookup, r₁, r₂, hdecode, hget⟩ | ⟨-, hnot, -⟩
  · obtain ⟨s, hs, rfl⟩ := map_eq_ok_iff.1 hdecode
    rw [hget, hversion, ← of_string hs]
    exact hlookup
  · cases hnot

/-- A document and its tag are read from the same member of an object. As an array, no document is
as short as a tag. -/
theorem get_version (get : ρ → String) (ho : o.FitsWords)
    (htag : decodeVersion depth o = .ok (some tag))
    (h : record name (documentFields putType putVersion putId d putData) start depth o = .ok r)
    (hversion : ∀ s r, get (putVersion s r) = s) (htype : ∀ s r, get (putType s r) = get r)
    (hid : ∀ s r, get (putId s r) = get r) (hdata : ∀ a r, get (putData a r) = get r) :
    get r = tag := by
  obtain ⟨inner, rfl, ⟨members, rfl, hmembers⟩ | ⟨items, rfl, hitems⟩⟩ := of_record h
  · obtain ⟨_, heq, ⟨_, hsame, htag⟩ | ⟨_, hother, -⟩⟩ := of_record (decodeVersion_eq ▸ htag)
    · cases hsame
      cases heq
      cases ho with
      | object hfits =>
          have hfirst := lookup_of_versionField hfits htag
          have hsecond := lookup_of_documentFields hfits hversion htype hid hdata hmembers
          simpa using hsecond.symm.trans hfirst
    · cases hother
  · obtain ⟨_, -, ⟨_, hother, -⟩ | ⟨_, hsame, htag⟩⟩ := of_record (decodeVersion_eq ▸ htag)
    · cases hother
    · cases hsame
      have hshort : items.length ≤ 1 := (of_items htag).1
      have hlong := (of_items hitems).2
      have hlast : required "data" d putData ∈
          (documentFields putType putVersion putId d putData).drop items.length := by
        rcases Nat.le_one_iff_eq_zero_or_eq_one.1 hshort with hzero | hone
        · rw [hzero]
          exact .tail _ (.tail _ (.tail _ (.head _)))
        · rw [hone]
          exact .tail _ (.tail _ (.head _))
      cases hlong _ hlast

end

theorem of_detectVersion {input : List Symbol} {format : Format}
    (h : detectVersion input = .ok format) :
    decodeVersion maxDepth (Json.Outline.parse input).1 = .ok (some format.tag) := by
  obtain ⟨tag, htag, h⟩ := bind_eq_ok_iff.1 h
  have hrun := of_run (mapError_eq_ok_iff.1 htag)
  split at h
  · cases h
  · cases h
  · split at h
    next hformat =>
      cases h
      rw [hrun, Format.ofTag?_eq_some_iff.1 hformat]
    next => cases h

/-- What was read has the version of its format, and its numbers fit. -/
theorem of_parse {input : List Symbol} {t : Template} (h : parse input = .ok t) :
    t.FitsWords ∧ t.storedVersion = t.format.tag := by
  obtain ⟨format, hformat, h⟩ := bind_eq_ok_iff.1 h
  have htag := of_detectVersion hformat
  have hfits := Json.Outline.fitsWords_parse input
  cases format with
  | keyed =>
      obtain ⟨document, hrun, rfl⟩ := map_eq_ok_iff.1 (mapError_eq_ok_iff.1 h)
      have hdecode := of_run hrun
      have hversion := get_version Keyed.Document.version hfits htag hdecode (fun _ _ => rfl)
        (fun _ _ => rfl) (fun _ _ => rfl) fun _ _ => rfl
      exact ⟨Keyed.Document.yields_decode maxDepth _ hfits document hdecode, hversion⟩
  | listed =>
      obtain ⟨document, hrun, rfl⟩ := map_eq_ok_iff.1 (mapError_eq_ok_iff.1 h)
      have hdecode := of_run hrun
      have hversion := get_version Listed.Document.version hfits htag hdecode (fun _ _ => rfl)
        (fun _ _ => rfl) (fun _ _ => rfl) fun _ _ => rfl
      exact ⟨Listed.Document.yields_decode maxDepth _ hfits document hdecode, hversion⟩

theorem format_of_parseAs {format : Format} {input : List Symbol} {t : Template}
    (h : parseAs format input = .ok t) : t.format = format := by
  have hread := mapError_eq_ok_iff.1 h
  cases format with
  | keyed =>
      obtain ⟨document, -, rfl⟩ := map_eq_ok_iff.1 hread
      rfl
  | listed =>
      obtain ⟨document, -, rfl⟩ := map_eq_ok_iff.1 hread
      rfl

theorem eq_keyed_iff_format {t : Template} :
    (∃ document, t = keyed document) ↔ t.format = .keyed := by
  cases t with
  | keyed document => exact iff_of_true ⟨document, rfl⟩ rfl
  | listed document => exact iff_of_false nofun nofun

/-- The two readings of a text agree. A template that is read is a document of the format that the
first reading found, and has its tag stored. Where the first reading fails, so does the whole, with
the same reason. -/
theorem detectVersion_of_parseBytes (bytes : List UInt8) :
    (∀ t, parseBytes bytes = .ok t →
      detectVersion (Utf8.symbols bytes) = .ok t.format ∧
        ((∃ document, t = keyed document) ↔ detectVersion (Utf8.symbols bytes) = .ok .keyed) ∧
        t.storedVersion = t.format.tag) ∧
      ∀ reason, detectVersion (Utf8.symbols bytes) = .error reason →
        parseBytes bytes = .error reason := by
  constructor
  · intro t h
    obtain ⟨format, hdetect, hread⟩ := bind_eq_ok_iff.1 h
    have hformat : t.format = format := format_of_parseAs hread
    refine ⟨hformat ▸ hdetect, ?_, (of_parse h).2⟩
    rw [hdetect, Except.ok.injEq, ← hformat]
    exact eq_keyed_iff_format
  · intro reason h
    rw [parseBytes, parse, h]
    rfl

/-- A keyed document in which the data come first and the key of the tag is written with an
escape. -/
def escapedText : String :=
  "\x7b\"data\": \x7b\"type\": \"script\", \"cadence\": \"\"\x7d, " ++
    "\"f_type\": \"InteractionTemplate\", \"\\u0066_version\": \"1.0.0\", \"id\": \"\"\x7d"

def escaped : Template :=
  keyed ⟨"InteractionTemplate", "1.0.0", "", { kind := "script", body := "" }⟩

/-- The document is read in both ways, and an object without members in neither. -/
theorem detectVersion_of_parseBytes_escaped :
    (parseBytes (Utf8.ofText escapedText) = .ok escaped ∧
      detectVersion (Utf8.symbols (Utf8.ofText escapedText)) = .ok .keyed ∧
      escaped.storedVersion = Format.keyed.tag) ∧
    detectVersion (Utf8.symbols (Utf8.ofText "\x7b\x7d")) = .error .missingVersion ∧
      parseBytes (Utf8.ofText "\x7b\x7d") = .error .missingVersion := by
  have hread : parseBytes (Utf8.ofText escapedText) = .ok escaped := by cbv
  have hmissing : detectVersion (Utf8.symbols (Utf8.ofText "\x7b\x7d")) =
      .error .missingVersion := by decide +kernel
  obtain ⟨hdetect, -, hversion⟩ := (detectVersion_of_parseBytes _).1 escaped hread
  exact ⟨⟨hread, hdetect, hversion⟩, hmissing, (detectVersion_of_parseBytes _).2 _ hmissing⟩

/-! ### Round trips -/

/-- Templates as they come about: laid out from a draft or read from a text, with other ids and
network pins stored later. Sealing a template stores its id. -/
inductive Arises : Template → Prop
  | ofDraft {draft : Draft} (h : draft.FitsWords) : Arises (ofDraft draft)
  | ofInput {input : List Symbol} {t : Template} (h : parse input = .ok t) : Arises t
  | setId {t : Template} (h : Arises t) (id : String) : Arises (t.setId id)
  | setNetworkPins {t : Template} (h : Arises t) (pins : List NetworkPin) :
    Arises (t.setNetworkPins pins)

theorem Arises.sealed {t : Template} (h : Arises t) : Arises t.sealed :=
  h.setId t.computeId

@[simp]
theorem storedVersion_setId (t : Template) (id : String) :
    (t.setId id).storedVersion = t.storedVersion := by
  cases t <;> rfl

@[simp]
theorem storedVersion_setNetworkPins (t : Template) (pins : List NetworkPin) :
    (t.setNetworkPins pins).storedVersion = t.storedVersion := by
  cases t <;> rfl

theorem storedVersion_ofDraft (draft : Draft) :
    (ofDraft draft).storedVersion = (ofDraft draft).format.tag := by
  rw [ofDraft]
  split <;> rfl

theorem Arises.fitsWords {t : Template} (h : Arises t) : t.FitsWords := by
  induction h with
  | ofDraft h => exact fitsWords_ofDraft h
  | ofInput h => exact (of_parse h).1
  | setId _ id ih => exact ih.setId id
  | setNetworkPins _ pins ih => exact ih.setNetworkPins pins

theorem Arises.storedVersion {t : Template} (h : Arises t) : t.storedVersion = t.format.tag := by
  induction h with
  | ofDraft => exact storedVersion_ofDraft _
  | ofInput h => exact (of_parse h).2
  | setId _ id ih => rw [storedVersion_setId, format_setId, ih]
  | setNetworkPins _ pins ih => rw [storedVersion_setNetworkPins, format_setNetworkPins, ih]

/-- A template that came about and is not too deep to be read is read back from its compact text
and from its indented one. -/
theorem parse_compactText_prettyText {t : Template} (h : Arises t)
    (hdepth : t.toJson.depth ≤ maxDepth) :
    parseBytes (Utf8.ofText t.compactText) = .ok t ∧ parseText t.prettyText = .ok t := by
  have hread : ∀ layout, parse ((t.toJson.render layout).toList.map some) = .ok t := by
    intro layout
    rw [parse_render h.fitsWords h.storedVersion layout, if_pos hdepth]
  constructor
  · rw [parseBytes, Utf8.ofText, Utf8.symbols_encode]
    exact hread .compact
  · exact hread (.indented 4)

/-- A script with a text that needs escapes, a pinned import and numbers as large as they may
be. -/
def greeting : Draft where
  kind := some .script
  messages := [⟨"title", [⟨"en-US", "Say \"hi\"\n"⟩]⟩]
  body := "import \"Token\"\n"
  dependencies := [⟨"Token", [⟨"mainnet", "0x1",
    some (.ofTree Decimal.wordMax ⟨"aa", "bb", "Token", "0x1", []⟩)⟩]⟩]
  parameters := [{ label := "name", index := Decimal.wordMax, type := "String" }]

theorem parse_compactText_prettyText_greeting :
    Arises (ofDraft greeting).sealed ∧ (ofDraft greeting).sealed.toJson.depth ≤ maxDepth ∧
      parseBytes (Utf8.ofText (ofDraft greeting).sealed.compactText) =
        .ok (ofDraft greeting).sealed ∧
      parseText (ofDraft greeting).sealed.prettyText = .ok (ofDraft greeting).sealed := by
  have hfits : greeting.FitsWords := by
    constructor
    · exact List.forall_mem_singleton.2 (Nat.le_refl _)
    · exact nofun
    · refine List.forall_mem_singleton.2 (List.forall_mem_singleton.2 ?_)
      rintro record ⟨⟩
      exact Nat.le_refl _
  have harises : Arises (ofDraft greeting).sealed := (Arises.ofDraft hfits).sealed
  have hdepth : (ofDraft greeting).sealed.toJson.depth ≤ maxDepth := by decide
  exact ⟨harises, hdepth, parse_compactText_prettyText harises hdepth⟩

end Template

end Interaction
