/-
**What is kept of an included file.**

An included code is known to the compiler from the place on where the word `contract` with a space behind it is met
first. In front of the first declaration stands a header of comments, blanks and directives. No directive and no blanks
have the word, and nothing that a header ends with reaches over into the declaration; so the declaration is met first
unless a comment has the word, and then the rest of that comment is kept as well.

Main definitions:

* `Source.HeaderPiece` — a comment, blanks or a directive,
* `Source.HeaderPiece.Mentions` — a comment that has the word,
* `Source.Declares` — a text that begins with a declaration.

Main results:

* `Source.fromFirst_append` — **a text is kept from the first occurrence on**,
* `Source.infix_header_iff` — a header has the word if one of its comments has it,
* `Source.resolveIncludes_kept` — **what is kept of each included file**.
-/

import SophiaBind.Proofs.IncludeResolution
import SophiaBind.Proofs.LoggedRows
import SophiaBind.Proofs.SourceComments

namespace SophiaBind.Source

/-! ### First occurrences -/

/-- Where a word is met first: a text begins with it, and it does not occur earlier, not even in part. -/
def MetFirst (word front behind : List Char) : Prop :=
  word <+: behind ∧ ¬word <:+: front ++ word.dropLast

section Occurrences

variable {word front behind cs : List Char}

/-- A word does not occur in a part of it. -/
theorem not_infix_dropLast (hword : word ≠ []) : ¬word <:+: word.dropLast := by
  intro h
  have hle := h.length_le
  have hpos := List.length_pos_of_ne_nil hword
  rw [List.length_dropLast] at hle
  omega

/-- A word does not begin earlier than where it is met first. -/
theorem MetFirst.not_prefix {c : Char} (h : MetFirst word (c :: front) behind) : ¬word <+: c :: (front ++ behind) := by
  intro hbegins
  obtain ⟨rest, rfl⟩ := h.1
  refine h.2 (List.prefix_of_prefix_length_le hbegins ⟨word.drop (word.length - 1) ++ rest, ?_⟩ ?_).isInfix
  · rw [List.cons_append, List.cons_append, List.append_assoc, List.dropLast_eq_take,
      ← List.append_assoc (word.take _), List.take_append_drop]
  · rw [List.length_append, List.length_dropLast, List.length_cons]
    omega

theorem MetFirst.of_cons {c : Char} (h : MetFirst word (c :: front) behind) : MetFirst word front behind :=
  ⟨h.1, fun hwithin => h.2 (List.infix_cons hwithin)⟩

/-- **A text is kept from the first occurrence of a word on.** -/
theorem fromFirst_append (hword : word ≠ []) (h : MetFirst word front behind) :
    fromFirst word (front ++ behind) = behind := by
  have hgo : fromFirst.go word (front ++ behind) = some behind := by
    induction front with
    | nil =>
        obtain ⟨c, r, hbehind⟩ := List.exists_cons_of_ne_nil (h.1.ne_nil hword)
        rw [List.nil_append, hbehind, fromFirst.go, if_pos (List.isPrefixOf_iff_prefix.2 (hbehind ▸ h.1))]
    | cons c front ih =>
        rw [List.cons_append, fromFirst.go, if_neg (mt List.isPrefixOf_iff_prefix.1 h.not_prefix)]
        exact ih h.of_cons
  rw [fromFirst, hgo]

/-- A word that occurs is met first somewhere. -/
theorem exists_metFirst (hword : word ≠ []) (h : word <:+: cs) :
    ∃ front behind, cs = front ++ behind ∧ MetFirst word front behind := by
  induction cs with
  | nil => exact absurd (List.infix_nil.1 h) hword
  | cons c cs ih =>
      by_cases hbegins : word <+: c :: cs
      · exact ⟨[], c :: cs, rfl, hbegins, not_infix_dropLast hword⟩
      · obtain ⟨front, behind, rfl, hfirst⟩ := ih ((List.infix_cons_iff.1 h).resolve_left hbegins)
        refine ⟨c :: front, behind, rfl, hfirst.1, fun hwithin => ?_⟩
        rcases List.infix_cons_iff.1 hwithin with hearly | hlater
        · have hpart : front ++ word.dropLast <+: front ++ behind :=
            (List.prefix_append_right_inj front).2 ((List.dropLast_prefix word).trans hfirst.1)
          exact hbegins (hearly.trans (List.cons_prefix_cons.2 ⟨rfl, hpart⟩))
        · exact hfirst.2 hlater

/-- A character that a word does not have is not a part of it. -/
theorem infix_of_infix_cons {c : Char} (hword : word ≠ []) (hc : c ∉ word) (h : word <:+: c :: cs) : word <:+: cs :=
  (@Catalog.infix_or_infix_of_append word [] cs c hc h).resolve_left fun hnil => hword (List.infix_nil.1 hnil)

end Occurrences

/-! ### Headers -/

/-- The word from which on a code is kept. -/
def opening : List Char :=
  "contract ".toList

/-- A piece of a header: a comment, blanks such as an empty line, or a directive as it is read. -/
inductive HeaderPiece
  | line (cs : List Char) (h : '\n' ∉ cs)
  | block (cs : List Char) (h : ¬['*', '/'] <:+: cs)
  | blanks (cs : List Char) (h : ∀ c ∈ cs, Text.isBlank c = true)
  | directive (cs name : List Char) (h : directive? cs = some (name, cs.length))

namespace HeaderPiece

/-- What is written of a piece. -/
def text : HeaderPiece → List Char
  | line cs _ => '/' :: '/' :: (cs ++ ['\n'])
  | block cs _ => '/' :: '*' :: (cs ++ ['*', '/'])
  | blanks cs _ => cs
  | directive cs _ _ => cs

/-- A comment that has the word of a declaration. -/
def Mentions : HeaderPiece → Prop
  | line cs _ => opening <:+: cs
  | block cs _ => opening <:+: cs
  | blanks _ _ => False
  | directive _ _ _ => False

end HeaderPiece

/-- The header that pieces make up. -/
def header (ps : List HeaderPiece) : List Char :=
  ps.flatMap HeaderPiece.text

/-- A directive is its word, blanks, and a file's name in quotes. -/
theorem directive?_whole {cs name : List Char} (h : directive? cs = some (name, cs.length)) :
    ∃ front, cs = front ++ '"' :: (name ++ ['"']) ∧
      (∀ c ∈ front, Text.isBlank c = true ∨ ∃ letter ∈ "include".toList, matchesLetter letter c = true) ∧
      ∀ c ∈ name, isFileChar c = true := by
  obtain ⟨word, gap, behind, hdirects, hlength⟩ := directive?_eq_some_iff.1 h
  -- the directive is the whole text, so nothing stands behind it
  have hnil : behind = [] := by
    have hparts := congrArg List.length hdirects.text
    rw [directiveText] at hparts
    simp only [List.length_append, List.length_cons] at hparts
    rw [← List.length_eq_zero_iff]
    omega
  subst hnil
  refine ⟨word ++ gap, ?_, fun c hc => ?_, hdirects.name.2⟩
  · rw [hdirects.text_eq, List.append_assoc]
  · rcases List.mem_append.1 hc with hword | hgap
    · exact .inr (exists_letter_of_mem hdirects.word hword)
    · exact .inl (hdirects.gap.2 c hgap)

/-- What a directive begins with has no `o`, and a file's name has no blank; the word has both. -/
theorem not_infix_directive {cs name : List Char} (h : directive? cs = some (name, cs.length)) :
    ¬opening <:+: cs := by
  obtain ⟨front, rfl, hfront, hname⟩ := directive?_whole h
  intro hwithin
  rcases Catalog.infix_or_infix_of_append (by decide) hwithin with hword | hquoted
  · have ho : 'o' ∈ front := hword.subset (by decide)
    have hnone : ∀ letter ∈ "include".toList, matchesLetter letter 'o' = false :=
      List.all_iff_forall_prop.1 (by decide)
    rcases hfront 'o' ho with hblank | ⟨letter, hletter, hmatches⟩
    · exact absurd hblank (by decide)
    · rw [hnone letter hletter] at hmatches
      cases hmatches
  · rcases Catalog.infix_or_infix_of_append (by decide) hquoted with hin | hnil
    · have hspace : ' ' ∈ name := hin.subset (by decide)
      exact absurd (hname ' ' hspace) (by decide)
    · exact absurd (List.infix_nil.1 hnil) (by decide)

/-- Blanks in front of a text are no part of the word. -/
theorem infix_of_infix_blanks {cs rest : List Char} (hcs : ∀ c ∈ cs, Text.isBlank c = true)
    (h : opening <:+: cs ++ rest) : opening <:+: rest := by
  induction cs with
  | nil => exact h
  | cons c cs ih =>
      obtain ⟨hc, hblanks⟩ := List.forall_mem_cons.1 hcs
      refine ih hblanks ((List.infix_cons_iff.1 h).resolve_left fun hbegins => ?_)
      have hfirst : 'c' = c := (List.cons_prefix_cons.1 hbegins).1
      rw [← hfirst] at hc
      exact absurd hc (by decide)

/-- **A piece has the word only if it is a comment with it**, and no piece reaches over into what stands behind it. -/
theorem HeaderPiece.infix_append_iff (p : HeaderPiece) (rest : List Char) :
    opening <:+: p.text ++ rest ↔ p.Mentions ∨ opening <:+: rest := by
  have hword : opening ≠ [] := by decide
  cases p with
  | line cs hcs =>
      have hall : HeaderPiece.text (.line cs hcs) ++ rest = '/' :: '/' :: (cs ++ '\n' :: rest) := by
        simp [HeaderPiece.text]
      rw [hall]
      constructor
      · intro h
        have hbehind := infix_of_infix_cons hword (by decide) (infix_of_infix_cons hword (by decide) h)
        exact Catalog.infix_or_infix_of_append (by decide) hbehind
      · rintro (hmention | hrest)
        · exact hmention.trans ⟨['/', '/'], '\n' :: rest, rfl⟩
        · exact hrest.trans ⟨'/' :: '/' :: (cs ++ ['\n']), [], by simp⟩
  | block cs hcs =>
      have hall : HeaderPiece.text (.block cs hcs) ++ rest = '/' :: '*' :: (cs ++ '*' :: '/' :: rest) := by
        simp [HeaderPiece.text]
      rw [hall]
      constructor
      · intro h
        have hbehind := infix_of_infix_cons hword (by decide) (infix_of_infix_cons hword (by decide) h)
        refine (Catalog.infix_or_infix_of_append (by decide) hbehind).imp_right fun hend => ?_
        exact infix_of_infix_cons hword (by decide) hend
      · rintro (hmention | hrest)
        · exact hmention.trans ⟨['/', '*'], '*' :: '/' :: rest, rfl⟩
        · exact hrest.trans ⟨'/' :: '*' :: (cs ++ ['*', '/']), [], by simp⟩
  | blanks cs hcs =>
      constructor
      · exact fun h => .inr (infix_of_infix_blanks hcs h)
      · exact fun h => (h.resolve_left id).trans (List.suffix_append _ rest).isInfix
  | directive cs name hread =>
      obtain ⟨front, hquoted, -, -⟩ := directive?_whole hread
      constructor
      · intro h
        have hend : HeaderPiece.text (.directive cs name hread) ++ rest = front ++ '"' :: name ++ '"' :: rest := by
          simp [HeaderPiece.text, hquoted]
        rw [hend] at h
        refine .inr ((Catalog.infix_or_infix_of_append (by decide) h).resolve_left fun hwithin => ?_)
        exact not_infix_directive hread (hwithin.trans ⟨[], ['"'], by simp [hquoted]⟩)
      · exact fun h => (h.resolve_left id).trans (List.suffix_append _ rest).isInfix

/-- **A header has the word if one of its comments has it.** -/
theorem infix_header_iff (ps : List HeaderPiece) (rest : List Char) :
    opening <:+: header ps ++ rest ↔ (∃ p ∈ ps, p.Mentions) ∨ opening <:+: rest := by
  induction ps with
  | nil => simp [header]
  | cons p ps ih =>
      have hcons : header (p :: ps) ++ rest = p.text ++ (header ps ++ rest) := by
        rw [header, List.flatMap_cons, List.append_assoc]
        rfl
      rw [hcons, p.infix_append_iff, ih, List.exists_mem_cons_iff, or_assoc]

/-! ### What is kept -/

/-- A text that begins with a declaration, as it is found, with a space behind its word. -/
def Declares (cs : List Char) : Prop :=
  opening <+: cs ∧ (declared? cs).isSome = true

section Kept

variable {ps : List HeaderPiece} {declaration : List Char}

/-- Where a comment has the word, the text is kept from there on. -/
theorem fromFirst_header_of_metFirst {front behind : List Char} (hheader : header ps = front ++ behind)
    (h : MetFirst opening front behind) : fromFirst opening (header ps ++ declaration) = behind ++ declaration := by
  rw [hheader, List.append_assoc]
  exact fromFirst_append (by decide) ⟨h.1.trans (List.prefix_append _ _), h.2⟩

/-- **A code is kept from its declaration on if no comment in front of it has the word.** -/
theorem fromFirst_header_iff (h : Declares declaration) :
    fromFirst opening (header ps ++ declaration) = declaration ↔ ∀ p ∈ ps, ¬p.Mentions := by
  constructor
  · intro hkept p hp hmention
    have hwithin : opening <:+: header ps := by
      rw [← List.append_nil (header ps)]
      exact (infix_header_iff ps []).2 (.inl ⟨p, hp, hmention⟩)
    obtain ⟨front, behind, hheader, hfirst⟩ := exists_metFirst (by decide) hwithin
    rw [fromFirst_header_of_metFirst hheader hfirst] at hkept
    -- the rest of the comment is kept as well
    exact hfirst.1.ne_nil (by decide) (List.append_cancel_right (hkept.trans (List.nil_append declaration).symm))
  · intro hnone
    refine fromFirst_append (by decide) ⟨h.1, fun hwithin => ?_⟩
    rcases (infix_header_iff ps opening.dropLast).1 hwithin with ⟨p, hp, hmention⟩ | hshort
    · exact hnone p hp hmention
    · exact not_infix_dropLast (by decide) hshort

end Kept

/-- **What is kept of each included file.** All files that the directives lead to are found, each under its name. Where
the file's text is a header and behind it a text that begins with a declaration, exactly that text is found if and only
if no comment of the header has the word `contract` with a space behind it; otherwise what is found begins where a
comment has the word first. -/
theorem resolveIncludes_kept {files : LinkedTree} {home : Location} {code : String} {found : IncludeMap}
    (h : resolveIncludes files home code = .ok found) :
    ∃ w, Reaches files (.start home code) w ∧ w.pending = [] ∧ found.map Prod.fst = w.names ∧
      (∀ d, w.Holds home code d → d.name ∈ w.names) ∧
      ∀ v ∈ w.visits, v.directive.LeadsTo files v.location v.code ∧
        ∀ (ps : List HeaderPiece) (declaration : List Char), v.code.toList = header ps ++ declaration →
          Declares declaration →
          (found.lookup v.name = some (String.ofList declaration) ↔ ∀ p ∈ ps, ¬p.Mentions) ∧
          ∀ front behind, header ps = front ++ behind → MetFirst opening front behind →
            found.lookup v.name = some (String.ofList (behind ++ declaration)) := by
  obtain ⟨w, hreach, hend⟩ := ends_resolveIncludes files home code
  have haccounted := hreach.accounted
  rw [h] at hend
  cases hend with
  | done hpending =>
      have hdistinct : (w.found.map Prod.fst).Nodup := w.map_fst_found ▸ haccounted.once
      refine ⟨w, hreach, hpending, w.map_fst_found, fun d hd => haccounted.closed hpending hd, fun v hv => ?_⟩
      refine ⟨haccounted.read v hv, fun ps declaration hcode hdeclares => ?_⟩
      have hlookup : w.found.lookup v.name = some (String.ofList (fromFirst opening (header ps ++ declaration))) := by
        rw [← hcode]
        exact (Keyed.lookup_eq_some_iff hdistinct).2 (List.mem_map_of_mem hv)
      rw [hlookup, Option.some_inj, String.ofList_inj]
      refine ⟨fromFirst_header_iff hdeclares, fun front behind hheader hfirst => ?_⟩
      rw [fromFirst_header_of_metFirst hheader hfirst]

/-! ### A library -/

/-- A code that includes a library. -/
def libraryUser : String := "include \"lib/Math.aes\"\ncontract Main =\n"

/-- A library of some text, beside a file that it may include. -/
def libraryTree (text : List Char) : LinkedTree where
  files := ⟨[(["lib"], .directory), (["lib", "Math.aes"], .file (Utf8.encode text)),
    (["lib", "U.aes"], .file (Utf8.encode "contract U =\n".toList))]⟩

/-- The declaration of the library. -/
def libraryDeclaration : List Char := "contract Math =\n".toList

/-- A header with a comment of each kind, empty lines and a directive. -/
def plainHeader : List HeaderPiece :=
  [.line " /*".toList (by decide), .block "contract".toList (by decide +kernel),
    .blanks ['\n'] (List.all_iff_forall_prop.1 (by decide)),
    .directive "include \"U.aes\"".toList "U.aes".toList (by decide +kernel),
    .blanks ['\n', '\n'] (List.all_iff_forall_prop.1 (by decide))]

/-- A header with a comment about the contract. -/
def tellingHeader : List HeaderPiece :=
  [.line " The contract adds.".toList (by decide)]

theorem declares_libraryDeclaration : Declares libraryDeclaration :=
  ⟨List.isPrefixOf_iff_prefix.1 (by decide +kernel), by decide +kernel⟩

/-- The file that the directive leads to. -/
theorem leads_library {text : List Char} (h : Files.textOf (Utf8.encode text) = .ok (String.ofList text)) :
    (⟨[], "lib/Math.aes"⟩ : Directive).Leads (libraryTree text) (String.ofList text) := by
  have hpath : Path.ofString "lib/Math.aes" = { parts := ["lib", "Math.aes"] } := by decide +kernel
  have htarget : (⟨[], "lib/Math.aes"⟩ : Directive).target (libraryTree text) = .ok ["lib", "Math.aes"] := by
    rw [Directive.target, hpath]
    rfl
  refine ⟨["lib", "Math.aes"], htarget, Utf8.encode text, ?_, h⟩
  rfl

theorem resolveIncludes_kept_plainHeader :
    ∃ found, resolveIncludes (libraryTree (header plainHeader ++ libraryDeclaration)) [] libraryUser = .ok found ∧
      ∃ w, Reaches (libraryTree (header plainHeader ++ libraryDeclaration)) (.start [] libraryUser) w ∧
        ∃ v ∈ w.visits, v.code.toList = header plainHeader ++ libraryDeclaration ∧ Declares libraryDeclaration ∧
          found.lookup v.name = some (String.ofList libraryDeclaration) ∧ ∀ p ∈ plainHeader, ¬p.Mentions := by
  have hresult : resolveIncludes (libraryTree (header plainHeader ++ libraryDeclaration)) [] libraryUser =
      .ok [("lib/Math.aes", String.ofList libraryDeclaration), ("U.aes", "contract U =\n")] :=
    Except.eq_ok_of_toOption (by decide +kernel)
  obtain ⟨w, hreach, -, hnames, -, hkept⟩ := resolveIncludes_kept hresult
  obtain ⟨v, rest, hvisits, hname, -⟩ := List.map_eq_cons_iff.1 hnames.symm
  have hv : v ∈ w.visits := hvisits ▸ List.mem_cons_self
  obtain ⟨hleads, hkept⟩ := hkept v hv
  -- the first file that was read is that of the code's own directive
  have hdirective : v.directive = ⟨[], "lib/Math.aes"⟩ := by
    have hwritten := hreach.accounted.written [] v ⟨rest, by rw [hvisits]; rfl⟩
    rcases hwritten with hown | ⟨u, hu, -⟩
    · have hone : directivesIn [] libraryUser = [⟨[], "lib/Math.aes"⟩] := by decide +kernel
      exact List.mem_singleton.1 (hone ▸ hown)
    · cases hu
  have htext : Files.textOf (Utf8.encode (header plainHeader ++ libraryDeclaration)) =
      .ok (String.ofList (header plainHeader ++ libraryDeclaration)) :=
    Except.eq_ok_of_toOption (by decide +kernel)
  have hcode : v.code.toList = header plainHeader ++ libraryDeclaration := by
    obtain ⟨l, hlibrary⟩ := leads_library htext
    rw [(hleads.unique (hdirective ▸ hlibrary)).2, String.toList_ofList]
  obtain ⟨hiff, -⟩ := hkept plainHeader libraryDeclaration hcode declares_libraryDeclaration
  have hlookup : [("lib/Math.aes", String.ofList libraryDeclaration), ("U.aes", "contract U =\n")].lookup v.name =
      some (String.ofList libraryDeclaration) := by
    rw [hname]
    rfl
  exact ⟨_, hresult, w, hreach, v, hv, hcode, declares_libraryDeclaration, hlookup, hiff.1 hlookup⟩

/-- **A comment about the contract is kept**, from that word on. -/
theorem resolveIncludes_keeps_comment :
    (⟨[], "lib/Math.aes"⟩ : Directive).Leads (libraryTree (header tellingHeader ++ libraryDeclaration))
        (String.ofList (header tellingHeader ++ libraryDeclaration)) ∧
      Declares libraryDeclaration ∧
      ∃ found, resolveIncludes (libraryTree (header tellingHeader ++ libraryDeclaration)) [] libraryUser = .ok found ∧
        found.lookup "lib/Math.aes" = some ("contract adds.\n" ++ String.ofList libraryDeclaration) ∧
        found.lookup "lib/Math.aes" ≠ some (String.ofList libraryDeclaration) :=
  ⟨leads_library (Except.eq_ok_of_toOption (by decide +kernel)), declares_libraryDeclaration,
    [("lib/Math.aes", "contract adds.\n" ++ String.ofList libraryDeclaration)],
    Except.eq_ok_of_toOption (by decide +kernel), by decide +kernel, by decide +kernel⟩

end SophiaBind.Source
