import Interaction.Build.Basic
import Interaction.Proofs.Source.Contents
import Interaction.Proofs.Source.Remark

/-!
# Metadata blocks as they are written

A metadata block has its tags on lines of their own. Each is read from its key to the end of its
line, whatever its value holds, and what is known of the interaction in the end is the summary of
what the tags say. One tag with a value that cannot be read makes the whole source malformed.
-/

namespace Interaction

namespace Source

open Source.Parser Lexeme

/-- A tag on a line of its own. Its value neither ends the line nor closes the block. -/
structure TagLine where
  key : Word
  value : List Char
  isLine : '\n' ∉ value
  isOpen : ¬ ['*', '/'] <:+: value

namespace TagLine

def text (tag : TagLine) : List Char :=
  ' ' :: '@' :: (tag.key.text.toList ++ ' ' :: (tag.value ++ ['\n']))

/-- What a tag says; nothing if its value is not as its key asks for. -/
def Says (tag : TagLine) (remark : Remark) : Prop :=
  Source.Says tag.key.text (Text.trimChars tag.value) remark

/-- A tag as it is read on a given line. The blanks behind its key are no part of its value. -/
def read (line : Nat) (tag : TagLine) : Tag where
  line := line
  key := tag.key.text
  value := String.ofList (tag.value.dropWhile fun c => c == ' ' || c == '\t')

def readFrom (line : Nat) : List TagLine → List Tag
  | [] => []
  | tag :: more => tag.read line :: readFrom (line + 1) more

end TagLine

/-- The lines of some tags, up to the close of their block. -/
def tagLines (tags : List TagLine) (indent : List Char) : List Char :=
  '\n' :: (tags.flatMap TagLine.text ++ (indent ++ ['*', '/']))

/-- A metadata block with its tags on lines of their own. -/
def blockText (tags : List TagLine) (indent : List Char) : List Char :=
  '/' :: '*' :: '*' :: tagLines tags indent

variable {b s v rest origin before : List Char} {c d : Char} {tag : TagLine} {tags : List TagLine}
  {remarks : List Remark}

/-! ### How tags are read -/

theorem linesBetween_append (before here : List Char) :
    linesBetween (before ++ here) here = before.count '\n' := by
  rw [linesBetween, List.length_append, Nat.add_sub_cancel, List.take_left]

namespace Tag

theorem lineEnd_append (hline : '\n' ∉ v) (hopen : ¬ ['*', '/'] <:+: v) (s : List Char) :
    lineEnd (v ++ '\n' :: s) = (v, '\n' :: s) := by
  induction v with
  | nil => rfl
  | cons c v ih =>
      have hmore := ih (fun hv => hline (.tail _ hv)) fun hin =>
        hopen (hin.trans (List.suffix_cons c v).isInfix)
      have hbreak : c ≠ '\n' := fun heq => hline (heq ▸ .head _)
      have hclose : ∀ rest, c = '*' → v ++ '\n' :: s = '/' :: rest → False := by
        rintro rest rfl heq
        cases v with
        | nil => exact absurd (List.cons.inj heq).1 (by decide)
        | cons d v =>
            rw [(List.cons.inj heq).1] at hopen
            exact hopen (List.prefix_append ['*', '/'] v).isInfix
      rw [List.cons_append, lineEnd, hmore]
      · exact hbreak
      · exact hclose

theorem parse_text (tag : TagLine)
    (horigin : origin = before ++ '@' :: (tag.key.text.toList ++ ' ' :: (tag.value ++ '\n' :: s))) :
    parse origin ('@' :: (tag.key.text.toList ++ ' ' :: (tag.value ++ '\n' :: s))) =
      some (tag.read (before.count '\n'), '\n' :: s) := by
  have hword : word (tag.key.text.toList ++ ' ' :: (tag.value ++ '\n' :: s)) =
      some (tag.key.text, ' ' :: (tag.value ++ '\n' :: s)) :=
    word_text tag.key (stops_cons (by decide) _)
  have hblanks : (' ' :: (tag.value ++ '\n' :: s)).dropWhile (fun c => c == ' ' || c == '\t') =
      tag.value.dropWhile (fun c => c == ' ' || c == '\t') ++ '\n' :: s :=
    Text.dropWhile_append_cons (by decide) tag.value s
  have hsuffix := List.dropWhile_suffix (fun c => c == ' ' || c == '\t') (l := tag.value)
  have hend := lineEnd_append (fun hmem => tag.isLine (hsuffix.subset hmem))
    (fun hin => tag.isOpen (hin.trans hsuffix.isInfix)) s
  rw [TagLine.read, ← linesBetween_append before, ← horigin]
  refine (bind_of_some rfl).trans ((bind_of_some (exactly_append "@" _)).trans ?_)
  refine (bind_of_some hword).trans ((bind_of_some rfl).trans ((bind_of_some rfl).trans ?_))
  rw [hblanks, hend]
  rfl

theorem between_close (hb : IsBlanks b) (rest : List Char) :
    between ('\n' :: (b ++ '*' :: '/' :: rest)) = some ((), '*' :: '/' :: rest) := by
  have hskip : ∀ c ∈ b, (c != '@' && c != '*') = true := by
    intro c hc
    have hspace := hb c hc
    simp only [isSpace, Bool.or_eq_true, beq_iff_eq] at hspace
    rcases hspace with ((rfl | rfl) | rfl) | rfl <;> decide
  change some ((), (b ++ '*' :: '/' :: rest).dropWhile fun c => c != '@' && c != '*') = _
  rw [List.dropWhile_append_of_pos hskip]
  rfl

/-- A step over the break of a line. -/
theorem step_break {after : List Char} (h : between ('\n' :: s) = some ((), after)) :
    step origin ('\n' :: s) = some (none, after) := by
  have hparse : parse origin ('\n' :: s) = none := rfl
  rw [step, orElse_of_none (map_of_none hparse)]
  exact map_eq_some_iff.2 ⟨(), h, rfl⟩

theorem many_step_line {t : Tag} {later : List Char} {found : List (Option Tag)}
    (hparse : parse origin ('@' :: s) = some (t, later))
    (hmore : many (step origin) later = some (found, rest)) :
    many (step origin) ('\n' :: ' ' :: '@' :: s) = some (none :: some t :: found, rest) := by
  have hbreak : step origin ('\n' :: ' ' :: '@' :: s) = some (none, '@' :: s) := step_break rfl
  have htag : step origin ('@' :: s) = some (some t, later) :=
    orElse_of_some (map_eq_some_iff.2 ⟨t, hparse, rfl⟩)
  rw [many_of_some hbreak (Nat.lt_succ_of_lt (Nat.lt_succ_self _)),
    many_of_some htag (afterClose?_parse hparse).2, hmore]
  rfl

theorem many_step_close (hb : IsBlanks b) (rest : List Char) :
    many (step origin) ('\n' :: (b ++ '*' :: '/' :: rest)) =
      some ([none], '*' :: '/' :: rest) := by
  have hclose : step origin ('*' :: '/' :: rest) = none := rfl
  have hlength : ('*' :: '/' :: rest).length < ('\n' :: (b ++ '*' :: '/' :: rest)).length := by
    simp only [List.length_cons, List.length_append]
    omega
  rw [many_of_some (step_break (between_close hb rest)) hlength, many_of_none hclose]
  rfl

theorem tagLines_cons (tag : TagLine) (more : List TagLine) (indent : List Char) :
    tagLines (tag :: more) indent = '\n' :: ' ' :: '@' ::
      (tag.key.text.toList ++ ' ' :: (tag.value ++ tagLines more indent)) := by
  simp [tagLines, TagLine.text]

/-- The lines of a block are read tag by tag, by induction on the tags. The text before a line
counts the lines above it. -/
theorem exists_many_tagLines (hb : IsBlanks b) (tags : List TagLine)
    (horigin : origin = before ++ (tagLines tags b ++ rest)) :
    ∃ found, many (step origin) (tagLines tags b ++ rest) = some (found, '*' :: '/' :: rest) ∧
      found.filterMap id = TagLine.readFrom (before.count '\n' + 1) tags := by
  induction tags generalizing before with
  | nil =>
      have htext : tagLines [] b ++ rest = '\n' :: (b ++ '*' :: '/' :: rest) := by simp [tagLines]
      rw [htext]
      exact ⟨[none], many_step_close hb rest, rfl⟩
  | cons tag more ih =>
      have hhere : origin = before ++ ['\n', ' '] ++ '@' :: (tag.key.text.toList ++ ' ' ::
          (tag.value ++ (tagLines more b ++ rest))) := by
        rw [horigin]
        simp [tagLines_cons]
      have hnext : origin = before ++ '\n' :: ' ' :: '@' ::
          (tag.key.text.toList ++ ' ' :: tag.value) ++ (tagLines more b ++ rest) := by
        rw [horigin]
        simp [tagLines_cons]
      have hkey : '\n' ∉ tag.key.text.toList :=
        fun hmem => absurd (tag.key.isWord.isWordChar _ hmem) (by decide)
      have hcount : (before ++ '\n' :: ' ' :: '@' ::
          (tag.key.text.toList ++ ' ' :: tag.value)).count '\n' = before.count '\n' + 1 := by
        simp [List.count_eq_zero.2 hkey, List.count_eq_zero.2 tag.isLine]
      have hbefore : (before ++ ['\n', ' ']).count '\n' = before.count '\n' + 1 := by simp
      obtain ⟨found, hfound, htags⟩ := ih hnext
      have hparse : parse origin ('@' :: (tag.key.text.toList ++ ' ' ::
          (tag.value ++ (tagLines more b ++ rest)))) =
            some (tag.read (before.count '\n' + 1), tagLines more b ++ rest) := by
        rw [← hbefore]
        exact parse_text tag hhere
      have htext : tagLines (tag :: more) b ++ rest = '\n' :: ' ' :: '@' ::
          (tag.key.text.toList ++ ' ' :: (tag.value ++ (tagLines more b ++ rest))) := by
        simp [tagLines_cons]
      rw [htext]
      refine ⟨_, many_step_line hparse hfound, ?_⟩
      rw [List.filterMap_cons, List.filterMap_cons, htags, hcount]
      rfl

/-! ### Where a block is -/

theorem namesVersion_pass (hopen : ¬ ['*', '/'] <:+: v) (hd : d ≠ '/')
    (hmore : namesVersion (d :: s) = true) : namesVersion (v ++ d :: s) = true := by
  induction v with
  | nil => exact hmore
  | cons c v ih =>
      have hnext := ih fun hin => hopen (hin.trans (List.suffix_cons c v).isInfix)
      cases v with
      | nil =>
          rw [List.singleton_append, namesVersion_of_not_close fun h => hd h.2, Bool.or_eq_true]
          exact .inr hnext
      | cons e v =>
          have hclose : ¬ (c = '*' ∧ e = '/') := by
            rintro ⟨rfl, rfl⟩
            exact hopen (List.prefix_append ['*', '/'] v).isInfix
          rw [List.cons_append, List.cons_append, namesVersion_of_not_close hclose,
            Bool.or_eq_true]
          exact .inr hnext

/-- A block with a tag for its version names it. -/
theorem namesVersion_tagLines (h : ∃ tag ∈ tags, tag.key.text = "f_version") (b rest : List Char) :
    namesVersion (tagLines tags b ++ rest) = true := by
  induction tags with
  | nil =>
      obtain ⟨tag, hmem, -⟩ := h
      cases hmem
  | cons tag more ih =>
      have htext : tagLines (tag :: more) b ++ rest = ['\n', ' '] ++ '@' ::
          (tag.key.text.toList ++ ' ' :: (tag.value ++ (tagLines more b ++ rest))) := by
        simp [tagLines_cons]
      rw [htext]
      refine namesVersion_pass (by decide) (by decide) ?_
      by_cases hkey : tag.key.text = "f_version"
      · rw [hkey]
        rfl
      · obtain ⟨other, hmem, hother⟩ := h
        have hmore := ih ⟨other, (List.mem_cons.1 hmem).resolve_left fun heq =>
          hkey (heq ▸ hother), hother⟩
        have hopen : ¬ ['*', '/'] <:+: '@' :: tag.key.text.toList := by
          intro hin
          rcases List.mem_cons.1 (hin.subset (.head _)) with hstar | hstar
          · exact absurd hstar (by decide)
          · exact absurd (tag.key.isWord.isWordChar _ hstar) (by decide)
        have hvalue : ¬ ['*', '/'] <:+: ' ' :: tag.value := by
          intro hin
          rcases List.infix_cons_iff.1 hin with hprefix | hin
          · exact absurd (List.cons_prefix_cons.1 hprefix).1 (by decide)
          · exact tag.isOpen hin
        have hbreak : namesVersion (' ' :: tag.value ++ (tagLines more b ++ rest)) = true :=
          namesVersion_pass hvalue (by decide) hmore
        exact namesVersion_pass hopen (by decide) hbreak

theorem exists_afterClose? (v s : List Char) :
    ∃ after, afterClose? (v ++ '*' :: '/' :: s) = some after := by
  induction v with
  | nil => exact ⟨s, rfl⟩
  | cons c v ih =>
      by_cases hclose : ∃ more, c = '*' ∧ v ++ '*' :: '/' :: s = '/' :: more
      · obtain ⟨more, rfl, hmore⟩ := hclose
        rw [List.cons_append, hmore]
        exact ⟨more, rfl⟩
      · rw [List.cons_append, afterClose?]
        · exact ih
        · exact fun more hc heq => hclose ⟨more, hc, heq⟩

/-- A block is read as its tags, line by line. -/
theorem block_text (h : ∃ tag ∈ tags, tag.key.text = "f_version") (hb : IsBlanks b)
    (rest : List Char) :
    block (blockText tags b ++ rest) = some (TagLine.readFrom 1 tags, rest) := by
  have horigin : blockText tags b ++ rest = ['/', '*', '*'] ++ (tagLines tags b ++ rest) := rfl
  obtain ⟨found, hfound, htags⟩ := exists_many_tagLines hb tags horigin
  have hclose : ((afterClose? (tagLines tags b ++ rest)).isSome) = true := by
    have htext : tagLines tags b ++ rest =
        '\n' :: (tags.flatMap TagLine.text ++ b) ++ '*' :: '/' :: rest := by
      simp [tagLines]
    obtain ⟨after, hafter⟩ := exists_afterClose? ('\n' :: (tags.flatMap TagLine.text ++ b)) rest
    rw [htext, hafter]
    rfl
  have hahead : blockAhead (blockText tags b ++ rest) = true :=
    Bool.and_eq_true_iff.2 ⟨namesVersion_tagLines h b rest, hclose⟩
  have hblock : block (blockText tags b ++ rest) =
      (do let found ← many (step (blockText tags b ++ rest))
          exactly "*/"
          return found.filterMap id : Parser (List Tag)) (tagLines tags b ++ rest) :=
    if_pos hahead
  rw [hblock]
  exact bind_eq_some_iff.2 ⟨found, _, hfound, bind_eq_some_iff.2 ⟨(), rest,
    exactly_append "*/" rest, congrArg (fun tags => some (tags, rest)) htags⟩⟩

end Tag

/-! ### What is read -/

theorem trimChars_read (line : Nat) (tag : TagLine) :
    Text.trimChars (tag.read line).value.toList = Text.trimChars tag.value := by
  rw [TagLine.read, String.toList_ofList]
  refine Text.trimChars_dropWhile_of_imp (fun c hc => ?_) tag.value
  simp only [Bool.or_eq_true, beq_iff_eq] at hc
  rcases hc with rfl | rfl <;> decide

/-- What one tag of the block that starts on a given line does to what is known. -/
def describeTag (line : Nat) (known : Metadata) (tag : Tag) : Except Flaw Metadata :=
  let value := Text.trimChars tag.value.toList
  match Tag.describe? known tag.key value with
  | some more => .ok more
  | none => .error ⟨line + tag.line, .malformedTag tag.key (String.ofList value)⟩

theorem blockMetadata_eq (line : Nat) (tags : List Tag) :
    blockMetadata line tags = tags.foldlM (describeTag line) {} :=
  rfl

theorem describeTag_of_remark {remark : Remark} (h : tag.Says remark) (line line' : Nat)
    (known : Metadata) : describeTag line known (tag.read line') = .ok (remark.add known) := by
  have hread : Tag.describe? known tag.key.text (Text.trimChars tag.value) =
      some (remark.add known) := describe?_eq_some_iff.2 ⟨remark, h, rfl⟩
  rw [describeTag, trimChars_read]
  change (match Tag.describe? known tag.key.text (Text.trimChars tag.value) with
    | some more => Except.ok more
    | none => _) = _
  rw [hread]

theorem describeTag_of_silent (h : ∀ remark, ¬ tag.Says remark) (line line' : Nat)
    (known : Metadata) : describeTag line known (tag.read line') = .error
      ⟨line + line', .malformedTag tag.key.text (String.ofList (Text.trimChars tag.value))⟩ := by
  have hread : Tag.describe? known tag.key.text (Text.trimChars tag.value) = none := by
    by_contra hsome
    obtain ⟨more, hmore⟩ := Option.ne_none_iff_exists'.1 hsome
    obtain ⟨remark, hsaid, -⟩ := describe?_eq_some_iff.1 hmore
    exact h remark hsaid
  rw [describeTag, trimChars_read]
  change (match Tag.describe? known tag.key.text (Text.trimChars tag.value) with
    | some more => Except.ok more
    | none => _) = _
  rw [hread]
  rfl

/-- Tags that each say something come to the summary of what they say. -/
theorem foldlM_describeTag (h : List.Forall₂ TagLine.Says tags remarks) (line line' : Nat) :
    (TagLine.readFrom line' tags).foldlM (describeTag line) {} =
      .ok (Remark.summary remarks) := by
  have hsteps (line' : Nat) : List.Forall₂ (fun remark tag =>
      ∀ known, describeTag line known tag = .ok (Remark.add known remark)) remarks
        (TagLine.readFrom line' tags) := by
    induction h generalizing line' with
    | nil => exact .nil
    | cons hsaid _ ih => exact .cons (describeTag_of_remark hsaid line line') (ih (line' + 1))
  rw [foldlM_eq_ok_foldl (hsteps line'), Remark.foldl_add]

theorem readFrom_append (line : Nat) (tags more : List TagLine) :
    TagLine.readFrom line (tags ++ more) =
      TagLine.readFrom line tags ++ TagLine.readFrom (line + tags.length) more := by
  induction tags generalizing line with
  | nil => rfl
  | cons tag tags ih =>
      rw [List.cons_append, TagLine.readFrom, TagLine.readFrom, ih, List.cons_append,
        List.length_cons, Nat.add_right_comm, Nat.add_assoc line]

/-- Of several tags that say nothing the first is reported, with its line in the block. -/
theorem foldlM_describeTag_of_silent (hbefore : List.Forall₂ TagLine.Says tags remarks)
    (h : ∀ remark, ¬ tag.Says remark) (line line' : Nat) (after : List TagLine) :
    (TagLine.readFrom line' (tags ++ tag :: after)).foldlM (describeTag line) {} = .error
      ⟨line + (line' + tags.length),
        .malformedTag tag.key.text (String.ofList (Text.trimChars tag.value))⟩ := by
  rw [readFrom_append, List.foldlM_append, foldlM_describeTag hbefore, TagLine.readFrom]
  change List.foldlM (describeTag line) (Remark.summary remarks) (tag.read _ :: _) = _
  rw [List.foldlM_cons, describeTag_of_silent h]
  rfl

/-- A metadata block in front of a transaction. -/
def blockSource (tags : List TagLine) (indent gap : List Char) : String :=
  String.ofList (blockText tags indent ++ (gap ++ "transaction \x7b\x7d".toList))

namespace Program

variable {indent gap : List Char}

theorem parse_blockSource (hversion : ∃ tag ∈ tags, tag.key.text = "f_version")
    (hindent : IsBlanks indent) (hgap : IsBlanks gap) :
    parse (blockSource tags indent gap) =
      (blockMetadata 1 (TagLine.readFrom 1 tags)).map fun known =>
        { entry := some { kind := .transaction, parameters := [] }, block := some known } := by
  have hblock := Tag.block_text hversion hindent (gap ++ "transaction \x7b\x7d".toList)
  obtain ⟨stop, line', start', hadd⟩ := exists_addText (Item.parse_of_block hblock) 1 0 {}
  have hknown : add {} ⟨1, 0, stop, .block (TagLine.readFrom 1 tags)⟩ =
      (blockMetadata 1 (TagLine.readFrom 1 tags)).map fun known => { block := some known } := rfl
  rw [blockSource, parse_ofList, hadd, hknown]
  cases blockMetadata 1 (TagLine.readFrom 1 tags) with
  | error flaw => rfl
  | ok known => exact addText_transaction hgap rfl line' start'

theorem parse_of_remarks (hversion : ∃ tag ∈ tags, tag.key.text = "f_version")
    (hindent : IsBlanks indent) (hgap : IsBlanks gap)
    (h : List.Forall₂ TagLine.Says tags remarks) :
    parse (blockSource tags indent gap) = .ok
      { entry := some { kind := .transaction, parameters := [] },
        block := some (Remark.summary remarks) } := by
  rw [parse_blockSource hversion hindent hgap, blockMetadata_eq, foldlM_describeTag h]
  rfl

/-- The first tag that says nothing makes the source malformed, and is named with its line. -/
theorem parse_of_silent {after : List TagLine}
    (hversion : ∃ t ∈ tags ++ tag :: after, t.key.text = "f_version") (hindent : IsBlanks indent)
    (hgap : IsBlanks gap) (hbefore : List.Forall₂ TagLine.Says tags remarks)
    (h : ∀ remark, ¬ tag.Says remark) :
    parse (blockSource (tags ++ tag :: after) indent gap) = .error
      ⟨tags.length + 2,
        .malformedTag tag.key.text (String.ofList (Text.trimChars tag.value))⟩ := by
  have hline : 1 + (1 + tags.length) = tags.length + 2 := by omega
  rw [parse_blockSource hversion hindent hgap, blockMetadata_eq,
    foldlM_describeTag_of_silent hbefore h, hline]
  rfl

end Program

/-- Of some tags that do not all say something there is a first that says nothing. -/
theorem exists_first_silent (h : ∃ tag ∈ tags, ∀ remark, ¬ tag.Says remark) :
    ∃ before tag after, tags = before ++ tag :: after ∧ (∀ remark, ¬ tag.Says remark) ∧
      ∃ remarks, List.Forall₂ TagLine.Says before remarks := by
  induction tags with
  | nil =>
      obtain ⟨tag, hmem, -⟩ := h
      cases hmem
  | cons tag more ih =>
      by_cases hsaid : ∃ remark, tag.Says remark
      · obtain ⟨remark, hremark⟩ := hsaid
        obtain ⟨other, hmem, hother⟩ := h
        have hmore : other ∈ more := by
          rcases List.mem_cons.1 hmem with rfl | hmore
          · exact absurd hremark (hother remark)
          · exact hmore
        obtain ⟨before, first, after, rfl, hfirst, remarks, hbefore⟩ := ih ⟨other, hmore, hother⟩
        exact ⟨tag :: before, first, after, rfl, hfirst, remark :: remarks,
          .cons hremark hbefore⟩
      · exact ⟨[], tag, more, rfl, fun remark hremark => hsaid ⟨remark, hremark⟩, [], .nil⟩

/-- A source that cannot be read is reported as malformed, with its flaw. -/
theorem build_of_flaw {source : String} {flaw : Flaw} (h : Program.parse source = .error flaw)
    (builder : Builder) (conditions : Conditions) {session : Session}
    (hopen : session.check = .ok ()) (earlier : Option Template) :
    (builder.build conditions session source earlier).1 = .error (.malformed (.flaw flaw)) := by
  have hprepare : builder.prepare session source earlier = .error (.malformed (.flaw flaw)) := by
    rw [Builder.prepare, hopen, h]
    rfl
  rw [Builder.build, Builder.course, hprepare]
  rfl

/-- A source with a metadata block is malformed if some tag has a value that cannot be read.
Otherwise the block declares what its tags say in the end. -/
theorem Program.parse_blockSource_iff {indent gap : List Char}
    (hversion : ∃ tag ∈ tags, tag.key.text = "f_version") (hindent : IsBlanks indent)
    (hgap : IsBlanks gap) :
    ((∃ flaw, parse (blockSource tags indent gap) = .error flaw) ↔
        ∃ tag ∈ tags, ∀ remark, ¬ tag.Says remark) ∧
      (∀ flaw, parse (blockSource tags indent gap) = .error flaw →
        ∀ (builder : Builder) (conditions : Conditions) (session : Session)
          (earlier : Option Template), session.check = .ok () →
            (builder.build conditions session (blockSource tags indent gap) earlier).1 =
              .error (.malformed (.flaw flaw))) ∧
      ∀ remarks, List.Forall₂ TagLine.Says tags remarks →
        parse (blockSource tags indent gap) = .ok
          { entry := some { kind := .transaction, parameters := [] },
            block := some (Remark.summary remarks) } := by
  refine ⟨⟨?_, ?_⟩, fun flaw hflaw builder conditions session earlier hopen =>
    build_of_flaw hflaw builder conditions hopen earlier,
    fun remarks hsaid => parse_of_remarks hversion hindent hgap hsaid⟩
  · rintro ⟨flaw, hflaw⟩
    by_contra hall
    have hsaid : ∀ tag ∈ tags, ∃ remark, tag.Says remark := by
      intro tag htag
      by_contra hnone
      exact hall ⟨tag, htag, fun remark hremark => hnone ⟨remark, hremark⟩⟩
    obtain ⟨remarks, hremarks⟩ := exists_forall₂ hsaid
    rw [parse_of_remarks hversion hindent hgap hremarks] at hflaw
    cases hflaw
  · intro h
    obtain ⟨before, tag, after, rfl, hno, remarks, hbefore⟩ := exists_first_silent h
    exact ⟨_, parse_of_silent hversion hindent hgap hbefore hno⟩

/-- A tag for a version, in front of a tag with a key of its own. -/
def versionTag : TagLine where
  key := ⟨"f_version", by decide +kernel⟩
  value := " 1.0.0 ".toList
  isLine := by decide +kernel
  isOpen := by decide +kernel

/-- Two titles, two remarks on one parameter and a tag with a key of its own. -/
def giftTags : List TagLine :=
  [versionTag,
    ⟨⟨"message", by decide +kernel⟩, "title: Gift".toList, by decide +kernel, by decide +kernel⟩,
    ⟨⟨"balance", by decide +kernel⟩, "to: FlowToken".toList, by decide +kernel, by decide +kernel⟩,
    ⟨⟨"author", by decide +kernel⟩, "@f_version".toList, by decide +kernel, by decide +kernel⟩,
    ⟨⟨"parameter", by decide +kernel⟩, "title to : Who".toList, by decide +kernel,
      by decide +kernel⟩,
    ⟨⟨"message", by decide +kernel⟩, "title: A gift: yours".toList, by decide +kernel,
      by decide +kernel⟩]

def giftRemarks : List Remark :=
  [.text .version "1.0.0", .text .title "Gift", .parameter "to" .balance "FlowToken", .nothing,
    .parameter "to" .title "Who", .text .title "A gift: yours"]

theorem remarks_gift : List.Forall₂ TagLine.Says giftTags giftRemarks := by
  have hversion : Says "f_version" (Text.trimChars " 1.0.0 ".toList) (.text .version "1.0.0") :=
    .version _
  have hfirst : Labels (Text.trimChars "title: Gift".toList) "title" "Gift" :=
    labelled?_eq_some_iff.1 (by decide +kernel)
  have hbalance : Labels (Text.trimChars "to: FlowToken".toList) "to" "FlowToken" :=
    labelled?_eq_some_iff.1 (by decide +kernel)
  have hparameter : Labels "to : Who".toList "to" "Who" :=
    labelled?_eq_some_iff.1 (by decide +kernel)
  have hlast : Labels (Text.trimChars "title: A gift: yours".toList) "title" "A gift: yours" :=
    labelled?_eq_some_iff.1 (by decide +kernel)
  have htitle : Says "parameter" (Text.trimChars "title to : Who".toList)
      (.parameter "to" .title "Who") := by
    have hvalue : Text.trimChars "title to : Who".toList =
        Aspect.title.name.toList ++ ' ' :: "to : Who".toList := by decide +kernel
    rw [hvalue]
    exact .parameter (by decide) (by decide) hparameter
  unfold giftTags giftRemarks
  refine .cons hversion (.cons ?_ (.cons ?_ (.cons ?_ (.cons htitle (.cons ?_ .nil)))))
  · exact .message (.inl rfl) hfirst
  · exact .balance hbalance
  · exact .other _ (by decide)
  · exact .message (.inl rfl) hlast

theorem Program.parse_blockSource_gift :
    parse (blockSource giftTags [' '] ['\n']) = .ok
      { entry := some { kind := .transaction, parameters := [] },
        block := some
          { version := some "1.0.0", title := some "A gift: yours",
            parameters :=
              [{ name := "to", title := some "Who", balance := some "FlowToken" }] } } := by
  have hsummary : Remark.summary giftRemarks =
      { version := some "1.0.0", title := some "A gift: yours",
        parameters := [{ name := "to", title := some "Who", balance := some "FlowToken" }] } := by
    decide
  have hversion : ∃ tag ∈ giftTags, tag.key.text = "f_version" := ⟨versionTag, .head _, rfl⟩
  have hbreak : IsBlanks ['\n'] := by decide
  have hparse := (parse_blockSource_iff hversion isBlanks_space hbreak).2.2 giftRemarks remarks_gift
  rwa [hsummary] at hparse

end Source

end Interaction
