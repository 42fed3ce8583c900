import Interaction.Proofs.Source.Chunk
import Interaction.Proofs.Traversal
import Interaction.Source.Program

/-!
# How much a text declares

A list that is read one item after another has no more items than characters were read for it. So
a source declares no more parameters than it has characters.
-/

namespace Interaction

namespace Source

open Source.Parser Lexeme

variable {α : Type} {item : Parser α} {s rest : List Char}

theorem Parser.length_many {p : Parser α} {found : List α} (h : many p s = some (found, rest)) :
    found.length + rest.length ≤ s.length := by
  fun_induction Parser.many p s generalizing found with
  | case1 s hnone =>
      cases h
      exact Nat.le_of_eq (Nat.zero_add _)
  | case2 s first mid hfirst hshorter ih =>
      obtain ⟨read, hread, he⟩ := Option.map_eq_some_iff.1 h
      cases he
      have := ih hread
      rw [List.length_cons]
      omega
  | case3 s first mid hfirst hsame =>
      cases h
      exact Nat.le_of_eq (Nat.zero_add _)

namespace Lexeme

theorem length_separated (hitem : Advances item) {found : List α}
    (h : separated item s = some (found, rest)) : found.length + rest.length ≤ s.length := by
  obtain ⟨first, mid, hfirst, h⟩ := bind_eq_some_iff.1 h
  obtain ⟨more, after, hmore, h⟩ := bind_eq_some_iff.1 h
  cases h
  have hshorter := (hitem hfirst).2
  have hlength := length_many hmore
  rw [List.length_cons]
  omega

theorem length_listed (hitem : Advances item) {found : List α}
    (h : listed item s = some (found, rest)) : found.length + rest.length ≤ s.length := by
  obtain ⟨items, mid, hitems, h⟩ := bind_eq_some_iff.1 h
  obtain ⟨_, after, hcomma, h⟩ := bind_eq_some_iff.1 h
  cases h
  have hlength := length_separated hitem hitems
  have hrest : rest.length ≤ mid.length :=
    (Consumes.maybe (advances_symbol (by decide)).consumes).length_le hcomma
  omega

theorem length_enclosed (hitem : Advances item) {opening closing : String} {found : List α}
    (h : enclosed opening item closing s = some (found, rest)) :
    found.length + rest.length ≤ s.length := by
  obtain ⟨_, inside, hopening, h⟩ := bind_eq_some_iff.1 h
  obtain ⟨items, after, hitems, h⟩ := bind_eq_some_iff.1 h
  obtain ⟨_, mid, hclosing, h⟩ := bind_eq_some_iff.1 h
  cases h
  have hinside := (Consumes.exactly _).length_le hopening
  have hrest : rest.length ≤ after.length :=
    (Consumes.bind consumes_skip fun _ => .exactly _).length_le hclosing
  rcases maybe_eq_some_iff.1 hitems with ⟨read, hread, rfl⟩ | ⟨-, rfl, rfl⟩
  · obtain ⟨_, start, hskip, hread⟩ := bind_eq_some_iff.1 hread
    have hstart := consumes_skip.length_le hskip
    have hlength := length_listed hitem hread
    rw [Option.getD_some]
    omega
  · rw [Option.getD_none, List.length_nil]
    omega

end Lexeme

/-- An entry point declares no more parameters than it has characters. -/
theorem Entry.length_parameters {entry : Entry} (h : Entry.parse s = some (entry, rest)) :
    entry.parameters.length + rest.length ≤ s.length := by
  rcases orElse_eq_some_iff.1 h with h | ⟨-, h⟩
  · obtain ⟨_, afterWord, hword, h⟩ := bind_eq_some_iff.1 h
    obtain ⟨parameters, afterList, hlist, h⟩ := bind_eq_some_iff.1 h
    obtain ⟨_, afterSkip, hskip, h⟩ := bind_eq_some_iff.1 h
    obtain ⟨_, last, hahead, h⟩ := bind_eq_some_iff.1 h
    cases h
    have hword := (advances_keyword (by decide)).consumes.length_le hword
    have hskip := consumes_skip.length_le hskip
    have hahead := (Consumes.ahead _).length_le hahead
    rcases maybe_eq_some_iff.1 hlist with ⟨read, hread, rfl⟩ | ⟨-, rfl, rfl⟩
    · obtain ⟨_, start, hstart, hread⟩ := bind_eq_some_iff.1 hread
      have hstart := consumes_skip.length_le hstart
      have hlength := length_enclosed Parameter.advances_parse hread
      simp only [Option.getD_some]
      omega
    · simp only [Option.getD_none, List.length_nil]
      omega
  · obtain ⟨_, afterFun, hfun, h⟩ := bind_eq_some_iff.1 h
    obtain ⟨_, beforeMain, hskip, h⟩ := bind_eq_some_iff.1 h
    obtain ⟨_, afterMain, hmain, h⟩ := bind_eq_some_iff.1 h
    obtain ⟨_, beforeList, hskip', h⟩ := bind_eq_some_iff.1 h
    obtain ⟨parameters, afterList, hlist, h⟩ := bind_eq_some_iff.1 h
    obtain ⟨returnType, last, hreturn, h⟩ := bind_eq_some_iff.1 h
    cases h
    have hfun := (advances_keyword (by decide)).consumes.length_le hfun
    have hskip := consumes_skip.length_le hskip
    have hmain := (advances_keyword (by decide)).consumes.length_le hmain
    have hskip' := consumes_skip.length_le hskip'
    have hlength := length_enclosed Parameter.advances_parse hlist
    have hreturn : rest.length ≤ afterList.length :=
      (Consumes.maybe (.bind (.bind consumes_skip fun _ => .exactly _) fun _ =>
        .bind consumes_skip fun _ => consumes_typeText)).length_le hreturn
    simp only
    omega

theorem exists_chunk_of_located {found : Located Item} {cs : List Chunk} {line start : Nat}
    (h : found ∈ locateFrom line start cs) : ∃ chunk ∈ cs, chunk.item = found.value := by
  induction cs generalizing line start with
  | nil => cases h
  | cons chunk more ih =>
      rcases List.mem_cons.1 h with rfl | h
      · exact ⟨chunk, .head _, rfl⟩
      · obtain ⟨other, hother, heq⟩ := ih h
        exact ⟨other, .tail _ hother, heq⟩

namespace Program

/-- Only an entry point is added as one. -/
theorem entry_of_add {program next : Program} {found : Located Item}
    (h : program.add found = .ok next) {entry : Entry} (hentry : next.entry = some entry) :
    program.entry = some entry ∨ found.value = .entry entry := by
  rw [add.eq_def] at h
  split at h
  next =>
    cases h
    exact .inl hentry
  next hfound =>
    split at h
    · cases h
    · cases h
      cases hentry
      exact .inr hfound
  next =>
    split at h
    · cases h
    · obtain ⟨known, -, rfl⟩ := map_eq_ok_iff.1 h
      exact .inl hentry
  next => cases h
  next =>
    split at h
    · cases h
      exact .inl hentry
    · obtain ⟨known, -, rfl⟩ := map_eq_ok_iff.1 h
      exact .inl hentry
  next =>
    cases h
    exact .inl hentry

/-- The entry point of a program is one of its items. -/
theorem exists_item_of_entry {found : List (Located Item)} {program final : Program}
    (h : found.foldlM add program = .ok final) {entry : Entry} (hentry : final.entry = some entry) :
    program.entry = some entry ∨ ∃ item ∈ found, item.value = .entry entry := by
  induction found generalizing program with
  | nil =>
      cases h
      exact .inl hentry
  | cons item more ih =>
      rw [List.foldlM_cons] at h
      obtain ⟨next, hnext, h⟩ := bind_eq_ok_iff.1 h
      rcases ih h with hsame | ⟨other, hother, heq⟩
      · exact (entry_of_add hnext hsame).imp_right fun hitem => ⟨item, .head _, hitem⟩
      · exact .inr ⟨other, .tail _ hother, heq⟩

/-- The entry point of a program is read from a part of its source. -/
theorem exists_parse_of_entry {source : String} {program : Program}
    (h : parse source = .ok program) {entry : Entry} (hentry : program.entry = some entry) :
    ∃ before s rest, source.toList = before ++ s ∧ Entry.parse s = some (entry, rest) := by
  rcases exists_item_of_entry h hentry with hnone | ⟨item, hitem, hvalue⟩
  · cases hnone
  · obtain ⟨chunk, hchunk, heq⟩ := exists_chunk_of_located hitem
    obtain ⟨before, after, hsource, hparse⟩ := (cut_chunks _).exists_parse hchunk
    rw [heq, hvalue] at hparse
    exact ⟨before, _, after, hsource, Item.readBy_of_parse hparse⟩

theorem length_parameters {source : String} {program : Program} (h : parse source = .ok program) :
    program.parameters.length ≤ source.length := by
  rw [parameters]
  cases hentry : program.entry with
  | none => exact Nat.zero_le _
  | some entry =>
      obtain ⟨before, s, rest, hsource, hparse⟩ := exists_parse_of_entry h hentry
      have hparameters := Entry.length_parameters hparse
      have hlength := congrArg List.length hsource
      rw [String.length_toList, List.length_append] at hlength
      simp only [Option.map_some, Option.getD_some]
      omega

end Program

end Source

end Interaction
