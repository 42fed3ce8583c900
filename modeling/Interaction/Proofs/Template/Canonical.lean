import Interaction.Proofs.Json.Printer
import Interaction.Proofs.Sorting
import Interaction.Proofs.Text.Utf8
import Interaction.Proofs.Traversal
import Interaction.Template.Canonical

/-!
# What the canonical form keeps

The canonical form forgets how messages of different keys, phrases of different languages and
placements on different networks stand to each other, and of a pin all but its root. It forgets
nothing else: documents with one canonical form say the same in all other respects.
-/

namespace Interaction

/-- Two lists of the same items, up to the order of items of different names. -/
def Alike {α : Type} (name : α → String) (Same : α → α → Prop) (items others : List α) : Prop :=
  ∃ items' others', Reordered name items items' ∧ Reordered name others others' ∧
    List.Forall₂ Same items' others'

/-- Messages of one key with the same phrases, up to the order of different languages. -/
structure Message.Same (m n : Message) : Prop where
  key : m.key = n.key
  phrases : Reordered Phrase.tag m.phrases n.phrases

/-- The same messages, up to the order of different keys. -/
def SameMessages (ms ns : List Message) : Prop :=
  Alike Message.key Message.Same ms ns

/-- The root of the pin of a placement; one that is missing counts as the empty text. -/
def Placement.root (placement : Placement) : String :=
  (placement.pin.map PinRecord.pin).getD ""

/-- Placements at one address with one root. -/
structure Placement.Same (p q : Placement) : Prop where
  network : p.network = q.network
  address : p.address = q.address
  root : p.root = q.root

/-- Dependencies on one contract with the same placements, up to the order of the networks. -/
structure Dependency.Same (d e : Dependency) : Prop where
  contract : d.contract = e.contract
  placements : Alike Placement.network Placement.Same d.placements e.placements

/-- Parameters that say the same. -/
structure Argument.Same (a b : Argument) : Prop where
  label : a.label = b.label
  index : a.index = b.index
  type : a.type = b.type
  messages : SameMessages a.messages b.messages
  isOutput : a.isOutput = b.isOutput
  balance : a.balance = b.balance

/-- Documents that say the same. -/
structure View.Same (v w : View) : Prop where
  format : v.format = w.format
  kind : v.kind = w.kind
  interface : v.interface = w.interface
  messages : SameMessages v.messages w.messages
  body : v.body = w.body
  dependencies : List.Forall₂ Dependency.Same v.dependencies w.dependencies
  parameters : List.Forall₂ Argument.Same v.parameters w.parameters
  output : v.format = .listed → Option.Rel Argument.Same v.output w.output
  networkPins : Reordered NetworkPin.network v.networkPins w.networkPins

theorem map_eq_map_iff {α β : Type} {f : α → β} {items others : List α} :
    items.map f = others.map f ↔ List.Forall₂ (fun a b => f a = f b) items others := by
  rw [← List.forall₂_eq_eq_eq, List.forall₂_map_left_iff, List.forall₂_map_right_iff]

theorem Reordered.mergeSort {α : Type} (name : α → String) (items : List α) :
    Reordered name items (items.mergeSort fun a b => name a ≤ name b) :=
  .of_filter fun n => (filter_mergeSort_name name items n).symm

/-- Lists are alike if they come to the same once they are sorted. -/
theorem alike_of_map_mergeSort {α β : Type} {name : α → String} {Same : α → α → Prop}
    {f : α → β} {items others : List α} (hsame : ∀ a b, f a = f b → Same a b)
    (h : (items.mergeSort fun a b => name a ≤ name b).map f =
      (others.mergeSort fun a b => name a ≤ name b).map f) : Alike name Same items others :=
  ⟨_, _, .mergeSort name items, .mergeSort name others, (map_eq_map_iff.1 h).imp hsame⟩

/-- Lists that are alike come to the same once they are sorted. -/
theorem map_mergeSort_of_alike {α β : Type} {name : α → String} {Same : α → α → Prop}
    {f : α → β} {items others : List α} (hsame : ∀ a b, Same a b → name a = name b ∧ f a = f b)
    (h : Alike name Same items others) :
    (items.mergeSort fun a b => name a ≤ name b).map f =
      (others.mergeSort fun a b => name a ≤ name b).map f := by
  obtain ⟨items', others', hitems, hothers, hall⟩ := h
  have hpairs : items'.map (fun a => (name a, f a)) = others'.map fun a => (name a, f a) :=
    map_eq_map_iff.2 (hall.imp fun a b hab => Prod.ext (hsame a b hab).1 (hsame a b hab).2)
  have hsort : ∀ list : List α, (list.mergeSort fun a b => name a ≤ name b).map f =
      ((list.map fun a => (name a, f a)).mergeSort fun p q => p.1 ≤ q.1).map Prod.snd := by
    intro list
    rw [← List.map_mergeSort (r := fun a b => name a ≤ name b) fun _ _ _ _ => rfl, List.map_map]
    rfl
  rw [hitems.mergeSort_eq, hothers.mergeSort_eq, hsort items', hsort others', hpairs]

/-- Lists with a mark that tells where the first part of each ends. -/
theorem append_inj_of_forall {α : Type} {p : α → Prop} {xs ys us vs : List α}
    (hxs : ∀ x ∈ xs, p x) (hys : ∀ y ∈ ys, p y) (hus : ∀ u ∈ us, ¬ p u) (hvs : ∀ v ∈ vs, ¬ p v)
    (h : xs ++ us = ys ++ vs) : xs = ys ∧ us = vs := by
  induction xs generalizing ys with
  | nil =>
      cases ys with
      | nil => exact ⟨rfl, h⟩
      | cons y ys =>
          rw [List.nil_append] at h
          exact absurd (hys y (.head _)) (hus y (h ▸ .head _))
  | cons x xs ih =>
      cases ys with
      | nil =>
          rw [List.nil_append] at h
          exact absurd (hxs x (.head _)) (hvs x (h ▸ .head _))
      | cons y ys =>
          obtain ⟨hfirst, hmore⟩ := List.cons.inj h
          obtain ⟨hrest, hend⟩ := ih (fun x hx => hxs x (.tail _ hx))
            (fun y hy => hys y (.tail _ hy)) hmore
          rw [hfirst, hrest]
          exact ⟨rfl, hend⟩

namespace Canonical

theorem isPlain_messages (ms : List Message) : (messages ms).IsPlain := by
  refine .array fun item hitem => ?_
  obtain ⟨m, -, rfl⟩ := List.mem_map.1 hitem
  refine .array fun part hpart => ?_
  simp only [List.mem_cons, List.not_mem_nil, or_false] at hpart
  rcases hpart with rfl | rfl
  · exact .string m.key
  · refine .array fun phrase hphrase => ?_
    obtain ⟨t, -, rfl⟩ := List.mem_map.1 hphrase
    exact Json.isPlain_strings _

theorem isPlain_dependency (d : Dependency) : (dependency d).IsPlain := by
  refine .array fun part hpart => ?_
  simp only [List.mem_cons, List.not_mem_nil, or_false] at hpart
  rcases hpart with rfl | rfl
  · exact .string d.contract
  · refine .array fun placed hplaced => ?_
    obtain ⟨p, -, rfl⟩ := List.mem_map.1 hplaced
    exact Json.isPlain_strings _

theorem isPlain_argument (a : Argument) : (argument a).IsPlain := by
  refine .array fun part hpart => ?_
  rcases List.mem_append.1 hpart with hpart | hpart
  · simp only [List.mem_cons, List.not_mem_nil, or_false] at hpart
    rcases hpart with rfl | rfl | rfl | rfl | rfl
    · exact .string a.label
    · exact .nat a.index
    · exact .string a.type
    · exact isPlain_messages a.messages
    · exact .bool a.isOutput
  · rw [Option.mem_toList, Option.map_eq_some_iff] at hpart
    obtain ⟨balance, -, rfl⟩ := hpart
    exact .string balance

theorem exists_of_mem_arguments {view : View} {item : Json} (h : item ∈ arguments view) :
    ∃ a, item = argument a := by
  rcases List.mem_append.1 h with h | h
  · obtain ⟨a, -, rfl⟩ := List.mem_map.1 h
    exact ⟨a, rfl⟩
  · split at h
    · rw [Option.mem_toList, Option.map_eq_some_iff] at h
      obtain ⟨a, -, rfl⟩ := h
      exact ⟨a, rfl⟩
    · cases h

theorem isPlain_value (view : View) : (value view).IsPlain := by
  refine .array fun part hpart => ?_
  simp only [List.mem_cons, List.not_mem_nil, or_false] at hpart
  rcases hpart with rfl | rfl | rfl | rfl | rfl | rfl | rfl | rfl
  · exact .string _
  · exact .string _
  · exact .string _
  · exact isPlain_messages view.messages
  · exact .string _
  · refine .array fun item hitem => ?_
    obtain ⟨d, -, rfl⟩ := List.mem_map.1 hitem
    exact isPlain_dependency d
  · refine .array fun item hitem => ?_
    obtain ⟨a, rfl⟩ := exists_of_mem_arguments hitem
    exact isPlain_argument a
  · refine .array fun item hitem => ?_
    obtain ⟨pin, -, rfl⟩ := List.mem_map.1 hitem
    exact Json.isPlain_strings _

theorem messages_inj {ms ns : List Message} (h : messages ms = messages ns) :
    SameMessages ms ns := by
  refine alike_of_map_mergeSort ?_ (Json.array.inj h)
  intro m n hmn
  simp only [Json.array.injEq, List.cons.injEq, Json.string.injEq, and_true] at hmn
  obtain ⟨hkey, hphrases⟩ := hmn
  refine ⟨hkey, .of_mergeSort ?_⟩
  refine List.map_injective_iff.2 ?_ hphrases
  rintro ⟨tag, text⟩ ⟨tag', text'⟩ htu
  simpa [Json.strings] using htu

theorem messages_eq_of_same {ms ns : List Message} (h : SameMessages ms ns) :
    messages ms = messages ns := by
  rw [messages, messages, map_mergeSort_of_alike ?_ h]
  intro m n hmn
  refine ⟨hmn.key, ?_⟩
  rw [hmn.key, hmn.phrases.mergeSort_eq]

theorem dependency_inj {d e : Dependency} (h : dependency d = dependency e) : d.Same e := by
  simp only [dependency, Json.array.injEq, List.cons.injEq, Json.string.injEq, and_true] at h
  obtain ⟨hcontract, hplacements⟩ := h
  refine ⟨hcontract, alike_of_map_mergeSort ?_ hplacements⟩
  intro p q hpq
  simp only [Json.strings, List.map_cons, List.map_nil, Json.array.injEq, List.cons.injEq,
    Json.string.injEq, and_true] at hpq
  exact ⟨hpq.1, hpq.2.1, hpq.2.2⟩

theorem dependency_eq_of_same {d e : Dependency} (h : d.Same e) : dependency d = dependency e := by
  rw [dependency, dependency, h.contract, map_mergeSort_of_alike ?_ h.placements]
  intro p q hpq
  have hroot : (p.pin.map PinRecord.pin).getD "" = (q.pin.map PinRecord.pin).getD "" := hpq.root
  rw [hpq.network, hpq.address, hroot]
  exact ⟨rfl, rfl⟩

/-- A balance is there or it is not. -/
theorem balance_inj {x y : Option String}
    (h : (x.map Json.string).toList = (y.map Json.string).toList) : x = y := by
  cases x with
  | none =>
      cases y with
      | none => rfl
      | some b => cases h
  | some a =>
      cases y with
      | none => cases h
      | some b =>
          cases h
          rfl

theorem argument_inj {a b : Argument} (h : argument a = argument b) : a.Same b := by
  simp only [argument, Json.array.injEq, List.cons_append, List.nil_append, List.cons.injEq,
    Json.string.injEq, Json.bool.injEq] at h
  obtain ⟨hlabel, hindex, htype, hmessages, hisOutput, hbalance⟩ := h
  have hnat : a.index = b.index :=
    Int.ofNat.inj (Json.Number.integer.inj (Json.number.inj hindex))
  exact ⟨hlabel, hnat, htype, messages_inj hmessages, hisOutput, balance_inj hbalance⟩

theorem argument_eq_of_same {a b : Argument} (h : a.Same b) : argument a = argument b := by
  rw [argument, argument, h.label, h.index, h.type, messages_eq_of_same h.messages, h.isOutput,
    h.balance]

/-- The inputs of a template are not marked as outputs, and an output is. -/
structure Marked (view : View) : Prop where
  parameters : ∀ a ∈ view.parameters, a.isOutput = false
  output : ∀ a ∈ view.output, a.isOutput = true

/-- The form of an argument that is not marked as an output. -/
def IsInput (item : Json) : Prop :=
  ∃ a, a.isOutput = false ∧ item = argument a

theorem Marked.isInput {view : View} (h : Marked view) {item : Json}
    (hitem : item ∈ view.parameters.map argument) : IsInput item := by
  obtain ⟨a, ha, rfl⟩ := List.mem_map.1 hitem
  exact ⟨a, h.parameters a ha, rfl⟩

theorem Marked.not_isInput {view : View} (h : Marked view) {item : Json}
    (hitem : item ∈ if view.format = .listed then (view.output.map argument).toList else []) :
    ¬ IsInput item := by
  rintro ⟨a, ha, rfl⟩
  split at hitem
  · rw [Option.mem_toList, Option.map_eq_some_iff] at hitem
    obtain ⟨b, hb, hsame⟩ := hitem
    have hmark := (argument_inj hsame).isOutput
    rw [h.output b hb, ha] at hmark
    cases hmark
  · cases hitem

theorem output_inj {x y : Option Argument}
    (h : (x.map argument).toList = (y.map argument).toList) : Option.Rel Argument.Same x y := by
  cases x with
  | none =>
      cases y with
      | none => exact .none
      | some b => cases h
  | some a =>
      cases y with
      | none => cases h
      | some b => exact .some (argument_inj (List.cons.inj h).1)

theorem output_eq_of_same {x y : Option Argument} (h : Option.Rel Argument.Same x y) :
    (x.map argument).toList = (y.map argument).toList := by
  cases h with
  | some hab => rw [Option.map_some, Option.map_some, argument_eq_of_same hab]
  | none => rfl

/-- Parameters end where the output begins, which is marked as one. -/
theorem arguments_inj {v w : View} (hv : Marked v) (hw : Marked w) (hformat : v.format = w.format)
    (h : arguments v = arguments w) :
    List.Forall₂ Argument.Same v.parameters w.parameters ∧
      (v.format = .listed → Option.Rel Argument.Same v.output w.output) := by
  obtain ⟨hparameters, hrest⟩ := append_inj_of_forall (fun _ => hv.isInput) (fun _ => hw.isInput)
    (fun _ => hv.not_isInput) (fun _ => hw.not_isInput) h
  refine ⟨(map_eq_map_iff.1 hparameters).imp fun _ _ => argument_inj, ?_⟩
  intro hlisted
  rw [if_pos hlisted, if_pos (hformat ▸ hlisted)] at hrest
  exact output_inj hrest

theorem kind_inj {k l : Option Kind} (h : (k.map Kind.name).getD "" = (l.map Kind.name).getD "") :
    k = l := by
  have hall : ∀ k ∈ [none, some Kind.script, some Kind.transaction],
      ∀ l ∈ [none, some Kind.script, some Kind.transaction],
        (k.map Kind.name).getD "" = (l.map Kind.name).getD "" → k = l := by decide
  have hmem : ∀ k : Option Kind, k ∈ [none, some Kind.script, some Kind.transaction] := by
    intro k
    rcases k with _ | _ | _ <;> decide
  exact hall k (hmem k) l (hmem l) h

theorem value_inj {v w : View} (hv : Marked v) (hw : Marked w) (h : value v = value w) :
    v.Same w := by
  simp only [value, Json.array.injEq, List.cons.injEq, Json.string.injEq, and_true] at h
  obtain ⟨htag, hkind, hinterface, hmessages, hbody, hdependencies, harguments, hpins⟩ := h
  have hformat : v.format = w.format := by
    have hread := Format.ofTag?_tag v.format
    rw [htag, Format.ofTag?_tag] at hread
    exact (Option.some.inj hread).symm
  obtain ⟨hparameters, houtput⟩ := arguments_inj hv hw hformat harguments
  refine ⟨hformat, kind_inj hkind, hinterface, messages_inj hmessages, hbody, ?_, hparameters,
    houtput, .of_mergeSort ?_⟩
  · exact (map_eq_map_iff.1 hdependencies).imp fun _ _ => dependency_inj
  · refine List.map_injective_iff.2 ?_ hpins
    rintro ⟨network, digest⟩ ⟨network', digest'⟩ hpq
    simpa [Json.strings] using hpq

theorem value_eq_of_same {v w : View} (h : v.Same w) : value v = value w := by
  have hdependencies : v.dependencies.map dependency = w.dependencies.map dependency :=
    map_eq_map_iff.2 (h.dependencies.imp fun _ _ => dependency_eq_of_same)
  have hparameters : v.parameters.map argument = w.parameters.map argument :=
    map_eq_map_iff.2 (h.parameters.imp fun _ _ => argument_eq_of_same)
  have houtput : (if v.format = .listed then (v.output.map argument).toList else []) =
      if w.format = .listed then (w.output.map argument).toList else [] := by
    rw [← h.format]
    split
    next hlisted => exact output_eq_of_same (h.output hlisted)
    next => rfl
  have hpins : NetworkPin.sort v.networkPins = NetworkPin.sort w.networkPins :=
    h.networkPins.mergeSort_eq
  rw [value, value, arguments, arguments, hdependencies, hparameters, houtput, hpins, h.format,
    h.kind, h.interface, h.body, messages_eq_of_same h.messages]

end Canonical

namespace Template

theorem marked_view (t : Template) : Canonical.Marked t.view := by
  cases t with
  | keyed document =>
      constructor
      · intro a ha
        obtain ⟨entry, -, rfl⟩ := List.mem_map.1 (List.mem_mergeSort.1 ha)
        rfl
      · intro a ha
        simp only [view, Keyed.Document.view] at ha
        split at ha
        · cases ha
          rfl
        · cases ha
  | listed document =>
      constructor
      · intro a ha
        obtain ⟨slot, -, rfl⟩ := List.mem_map.1 (List.mem_mergeSort.1 ha)
        rfl
      · intro a ha
        obtain ⟨slot, -, rfl⟩ := Option.map_eq_some_iff.1 ha
        rfl

/-- The canonical form holds what a template says and nothing else. -/
theorem canonicalText_eq_iff {s t : Template} :
    s.canonicalText = t.canonicalText ↔ s.view.Same t.view := by
  constructor
  · intro h
    refine Canonical.value_inj s.marked_view t.marked_view ?_
    exact Json.compress_inj (Canonical.isPlain_value _) (Canonical.isPlain_value _) h
  · intro h
    rw [canonicalText, canonicalText, Canonical.value_eq_of_same h]

/-- The canonical bytes of a template determine all that it says, up to the order of messages,
phrases, placements and network pins of different names. -/
theorem same_of_canonicalText {s t : Template}
    (h : Utf8.ofText s.canonicalText = Utf8.ofText t.canonicalText) : s.view.Same t.view := by
  have htext : s.canonicalText = t.canonicalText := Utf8.ofText_injective h
  exact canonicalText_eq_iff.1 htext

/-- A script with one import. -/
def supply (messages : List Message) (deployments : List Listed.Deployment)
    (pins : List NetworkPin) : Template :=
  .listed {
    type := documentType
    version := Format.listed.tag
    contents := {
      kind := "script"
      messages := messages
      code := { body := "import \"Token\"\n", networkPins := pins }
      dependencies := [[⟨"Token", deployments⟩]]
      output := some { label := "result", type := "Int" } } }

/-- The script as one writer lays it out. -/
def supplyForward : Template :=
  supply
    [⟨"title", [⟨"en-US", "Supply"⟩, ⟨"de", "Menge"⟩]⟩, ⟨"description", []⟩]
    [⟨"testnet", "0x1", 5, none⟩, ⟨"mainnet", "0x2", 6, none⟩]
    [⟨"testnet", "aa"⟩, ⟨"mainnet", "bb"⟩]

/-- The script as another writer lays it out. -/
def supplyBackward : Template :=
  supply
    [⟨"description", []⟩, ⟨"title", [⟨"de", "Menge"⟩, ⟨"en-US", "Supply"⟩]⟩]
    [⟨"mainnet", "0x2", 0, none⟩, ⟨"testnet", "0x1", 0, none⟩]
    [⟨"mainnet", "bb"⟩, ⟨"testnet", "aa"⟩]

theorem same_of_canonicalText_supply : supplyForward ≠ supplyBackward ∧
    Utf8.ofText supplyForward.canonicalText = Utf8.ofText supplyBackward.canonicalText ∧
    supplyForward.view.Same supplyBackward.view := by
  have hvalue : Canonical.value supplyForward.view = Canonical.value supplyBackward.view := by
    simp [Canonical.value, Canonical.messages, Canonical.dependency, Canonical.arguments,
      supplyForward, supplyBackward, supply, view, Listed.Document.view,
      Listed.Document.dependencies, Listed.Document.parameters, Listed.Deployment.toPlacement,
      NetworkPin.sort, List.mergeSort, List.MergeSort.Internal.splitInTwo]
  have hbytes : Utf8.ofText supplyForward.canonicalText =
      Utf8.ofText supplyBackward.canonicalText := by
    rw [canonicalText, canonicalText, hvalue]
  exact ⟨by decide, hbytes, same_of_canonicalText hbytes⟩

end Template

end Interaction
