/-
**Comments and the catalog of a source.**

A source is a sequence of code and comments. Its blocks are dropped first, wherever they begin, and its line
comments after that. So a comment may hold what begins or ends another one: within a block nothing counts but
its end, and a line comment may hold whole blocks. But a block that begins in a line comment and ends behind it
takes all that stands between. Where there is none, the catalog is that of the code.

Main definitions:

* `Catalog.Piece` — a piece of code or a comment, with what is written of it, and what is to be left of it,
* `Catalog.leavesOpen` — a block begins in a text and does not end there,
* `Catalog.Apart` — no line comment of a source has to do with a block that ends behind it.

Main results:

* `Catalog.dropBlocks_append_line` — **a line with its blocks closed is scanned on its own**,
* `Catalog.stripComments_pieces` — a source is left without its comments,
* `Catalog.ofSource_pieces` — **comments do not change the catalog** where they stand apart.
-/

import SophiaBind.Proofs.SourceScan

namespace SophiaBind.Catalog

/-! ### Pieces of a source -/

/-- A piece of a source: code without slashes, or a comment, which is a text that its end does not occur in. -/
inductive Piece
  | code (cs : List Char) (h : '/' ∉ cs)
  | line (cs : List Char) (h : '\n' ∉ cs)
  | block (cs : List Char) (h : ¬['*', '/'] <:+: cs)

namespace Piece

/-- What is written of a piece. -/
def text : Piece → List Char
  | code cs _ => cs
  | line cs _ => '/' :: '/' :: (cs ++ ['\n'])
  | block cs _ => '/' :: '*' :: (cs ++ ['*', '/'])

/-- What is to be left of a piece: the code, and the end of a line. -/
def shown : Piece → List Char
  | code cs _ => cs
  | line _ _ => ['\n']
  | block _ _ => []

/-- What the first pass leaves of a piece. -/
def unblocked : Piece → List Char
  | code cs _ => cs
  | line cs _ => dropBlocks 0 ('/' :: '/' :: cs) ++ ['\n']
  | block _ _ => []

end Piece

/-- The source that pieces make up. -/
def written (ps : List Piece) : String :=
  String.ofList (ps.flatMap Piece.text)

/-- The source that is to be left of pieces. -/
def uncommented (ps : List Piece) : String :=
  String.ofList (ps.flatMap Piece.shown)

/-- Whether a block begins in a text and does not end there; the next `skip` characters belong to one before. -/
def leavesOpen (skip : Nat) : List Char → Bool
  | [] => false
  | c :: r =>
    match skip with
    | n + 1 => leavesOpen n r
    | 0 =>
      match blockLength? (c :: r) with
      | some n => leavesOpen (n - 1) r
      | none => ['/', '*'].isPrefixOf (c :: r) || leavesOpen 0 r

/-- A line comment keeps to itself: without the blocks in it, it is still one, and a block that begins in it and does
not end there ends nowhere. -/
def Keeps (cs rest : List Char) : Prop :=
  ['/', '/'] <+: dropBlocks 0 ('/' :: '/' :: cs) ∧
    (leavesOpen 0 ('/' :: '/' :: cs) = true → ¬['*', '/'] <:+: rest)

/-- No line comment has to do with what stands behind it. -/
def Apart : List Piece → Prop
  | [] => True
  | .line cs _ :: rest => Keeps cs (rest.flatMap Piece.text) ∧ Apart rest
  | _ :: rest => Apart rest

instance (cs rest : List Char) : Decidable (Keeps cs rest) :=
  inferInstanceAs (Decidable (_ ∧ _))

instance Apart.decidable : ∀ ps : List Piece, Decidable (Apart ps)
  | [] => .isTrue trivial
  | .code _ _ :: rest => Apart.decidable rest
  | .line cs _ :: rest =>
      have := Apart.decidable rest
      inferInstanceAs (Decidable (Keeps cs (rest.flatMap Piece.text) ∧ Apart rest))
  | .block _ _ :: rest => Apart.decidable rest

/-! ### The end of a block -/

theorem blockEnd?_cons {c : Char} {cs : List Char} (h : ¬['*', '/'] <+: c :: cs) :
    blockEnd? (c :: cs) = (blockEnd? cs).map (· + 1) := by
  rw [blockEnd?]
  rintro r rfl rfl
  exact h ⟨r, rfl⟩

theorem blockEnd?_eq_none_iff {cs : List Char} : blockEnd? cs = none ↔ ¬['*', '/'] <:+: cs := by
  induction cs with
  | nil => simp [blockEnd?]
  | cons c cs ih =>
      by_cases hfirst : ['*', '/'] <+: c :: cs
      · obtain ⟨r, hr⟩ := hfirst
        obtain ⟨rfl, rfl⟩ := List.cons.inj hr
        simp [blockEnd?, List.infix_cons_iff]
      · rw [blockEnd?_cons hfirst, Option.map_eq_none_iff, ih, List.infix_cons_iff, or_iff_right hfirst]

/-- A block ends where its end is met first. -/
theorem blockEnd?_append_end {cs : List Char} (h : ¬['*', '/'] <:+: cs) (rest : List Char) :
    blockEnd? (cs ++ '*' :: '/' :: rest) = some (cs.length + 2) := by
  induction cs with
  | nil => rfl
  | cons c cs ih =>
      -- an end does not reach over the edge of the body, for its characters are not the same
      have hfirst : ¬['*', '/'] <+: c :: (cs ++ '*' :: '/' :: rest) := by
        rintro ⟨r, hr⟩
        obtain ⟨rfl, hcs⟩ := List.cons.inj hr
        cases cs with
        | nil => cases (List.cons.inj hcs).1
        | cons d cs =>
            obtain ⟨rfl, -⟩ := List.cons.inj hcs
            exact h ⟨[], cs, rfl⟩
      rw [List.cons_append, blockEnd?_cons hfirst, ih fun hwithin => h (List.infix_cons hwithin)]
      rfl

/-- An end that is found is the first one. -/
theorem exists_of_blockEnd? {cs : List Char} {n : Nat} (h : blockEnd? cs = some n) :
    ∃ body rest, cs = body ++ '*' :: '/' :: rest ∧ ¬['*', '/'] <:+: body ∧ n = body.length + 2 := by
  induction cs generalizing n with
  | nil => cases h
  | cons c cs ih =>
      by_cases hfirst : ['*', '/'] <+: c :: cs
      · obtain ⟨r, hr⟩ := hfirst
        obtain ⟨rfl, rfl⟩ := List.cons.inj hr
        exact ⟨[], r, rfl, by simp, (Option.some.inj h).symm⟩
      · rw [blockEnd?_cons hfirst, Option.map_eq_some_iff] at h
        obtain ⟨m, hm, rfl⟩ := h
        obtain ⟨body, rest, rfl, hbody, rfl⟩ := ih hm
        refine ⟨c :: body, rest, rfl, fun hwithin => ?_, rfl⟩
        rcases List.infix_cons_iff.1 hwithin with hbegins | hwithin
        · exact hfirst (hbegins.trans (List.prefix_append (c :: body) _))
        · exact hbody hwithin

/-- An end that is there is found, whatever follows it. -/
theorem blockEnd?_append {cs : List Char} {n : Nat} (h : blockEnd? cs = some n) (rest : List Char) :
    blockEnd? (cs ++ rest) = some n ∧ n ≤ cs.length := by
  obtain ⟨body, behind, rfl, hbody, rfl⟩ := exists_of_blockEnd? h
  have hend := blockEnd?_append_end hbody (behind ++ rest)
  exact ⟨by rwa [List.append_assoc], by simp⟩

/-! ### Blocks within a line -/

theorem blockLength?_of_not_prefix {cs : List Char} (h : ¬['/', '*'] <+: cs) : blockLength? cs = none := by
  unfold blockLength?
  split
  · next r => exact absurd ⟨r, rfl⟩ h
  · rfl

theorem blockLength?_append {cs : List Char} {n : Nat} (h : blockLength? cs = some n) (rest : List Char) :
    blockLength? (cs ++ rest) = some n ∧ n ≤ cs.length := by
  unfold blockLength? at h
  split at h
  · next r =>
      obtain ⟨m, hm, rfl⟩ := Option.map_eq_some_iff.1 h
      obtain ⟨hend, hle⟩ := blockEnd?_append hm rest
      exact ⟨by simp [blockLength?, hend], by simpa using hle⟩
  · cases h

/-- A word does not reach over a character that it does not have. -/
theorem infix_or_infix_of_append {word cs rest : List Char} {c : Char} (hc : c ∉ word)
    (h : word <:+: cs ++ c :: rest) : word <:+: cs ∨ word <:+: rest := by
  induction cs with
  | nil =>
      rcases List.infix_cons_iff.1 h with hbegins | hwithin
      · exact .inl (prefix_of_prefix_append hc hbegins).isInfix
      · exact .inr hwithin
  | cons d cs ih =>
      rcases List.infix_cons_iff.1 h with hbegins | hwithin
      · exact .inl (@prefix_of_prefix_append word (d :: cs) rest c hc hbegins).isInfix
      · rcases ih hwithin with hcs | hrest
        · exact .inl (List.infix_cons hcs)
        · exact .inr hrest

/-- No block begins here on a line, if one that begins on it does not end behind it. -/
theorem blockLength?_append_line {c : Char} {cs rest : List Char} (hnone : blockLength? (c :: cs) = none)
    (h : leavesOpen 0 (c :: cs) = true → ¬['*', '/'] <:+: rest) :
    blockLength? (c :: (cs ++ '\n' :: rest)) = none := by
  by_cases hopen : ['/', '*'] <+: c :: cs
  · -- a block begins here, and ends neither on the line nor behind it
    have hbehind := h (by simp [leavesOpen, hnone, hopen])
    obtain ⟨r, hr⟩ := hopen
    obtain ⟨rfl, rfl⟩ := List.cons.inj hr
    have hline : ¬['*', '/'] <:+: r := blockEnd?_eq_none_iff.1 (Option.map_eq_none_iff.1 hnone)
    have hboth : ¬['*', '/'] <:+: r ++ '\n' :: rest := fun hwithin =>
      (infix_or_infix_of_append (by decide) hwithin).elim hline hbehind
    simp [blockLength?, blockEnd?_eq_none_iff.2 hboth]
  · -- no block begins here, and none with the end of the line
    refine blockLength?_of_not_prefix fun hbegins => hopen ?_
    exact @prefix_of_prefix_append _ (c :: cs) rest '\n' (by decide) hbegins

theorem dropBlocks_of_some {c : Char} {cs : List Char} {n : Nat} (h : blockLength? (c :: cs) = some n) :
    dropBlocks 0 (c :: cs) = dropBlocks (n - 1) cs := by
  simp only [dropBlocks, h]

theorem dropBlocks_of_none {c : Char} {cs : List Char} (h : blockLength? (c :: cs) = none) :
    dropBlocks 0 (c :: cs) = c :: dropBlocks 0 cs := by
  simp only [dropBlocks, h]

/-- **A line that leaves no block open is scanned on its own**, or one that leaves open a block that ends nowhere. -/
theorem dropBlocks_append_line {skip : Nat} {cs rest : List Char} (hskip : skip ≤ cs.length)
    (h : leavesOpen skip cs = true → ¬['*', '/'] <:+: rest) :
    dropBlocks skip (cs ++ '\n' :: rest) = dropBlocks skip cs ++ '\n' :: dropBlocks 0 rest := by
  induction cs generalizing skip with
  | nil =>
      obtain rfl : skip = 0 := by simpa using hskip
      rfl
  | cons c cs ih =>
      cases skip with
      | succ n => exact ih (by simpa using hskip) h
      | zero =>
          cases hlength : blockLength? (c :: cs) with
          | some n =>
              obtain ⟨hboth, hle⟩ := blockLength?_append hlength ('\n' :: rest)
              have hbehind : n - 1 ≤ cs.length := by simpa using hle
              have hopen : leavesOpen (n - 1) cs = true → ¬['*', '/'] <:+: rest := fun hcs =>
                h (by simpa [leavesOpen, hlength] using hcs)
              rw [List.cons_append] at hboth ⊢
              rw [dropBlocks_of_some hboth, dropBlocks_of_some hlength, ih hbehind hopen]
          | none =>
              have hopen : leavesOpen 0 cs = true → ¬['*', '/'] <:+: rest := fun hcs =>
                h (by simp [leavesOpen, hlength, hcs])
              rw [List.cons_append, dropBlocks_of_none (blockLength?_append_line hlength h),
                dropBlocks_of_none hlength, ih (Nat.zero_le _) hopen, List.cons_append]

theorem mem_of_mem_dropBlocks {skip : Nat} {cs : List Char} {c : Char} (h : c ∈ dropBlocks skip cs) : c ∈ cs := by
  induction cs generalizing skip with
  | nil => cases h
  | cons d cs ih =>
      cases skip with
      | succ n => exact List.mem_cons_of_mem d (ih h)
      | zero =>
          simp only [dropBlocks] at h
          split at h
          · exact List.mem_cons_of_mem d (ih h)
          · rcases List.mem_cons.1 h with rfl | h
            · exact List.mem_cons_self
            · exact List.mem_cons_of_mem d (ih h)

/-! ### The first pass -/

theorem dropBlocks_code {cs : List Char} (h : '/' ∉ cs) (rest : List Char) :
    dropBlocks 0 (cs ++ rest) = cs ++ dropBlocks 0 rest := by
  induction cs with
  | nil => rfl
  | cons c cs ih =>
      have hnone : blockLength? (c :: (cs ++ rest)) = none := blockLength?_of_not_prefix fun ⟨r, hr⟩ =>
        h ((List.cons.inj hr).1 ▸ List.mem_cons_self)
      rw [List.cons_append, dropBlocks_of_none hnone, ih fun hcs => h (List.mem_cons_of_mem c hcs), List.cons_append]

theorem dropBlocks_skip (cs rest : List Char) : dropBlocks cs.length (cs ++ rest) = dropBlocks 0 rest := by
  induction cs with
  | nil => rfl
  | cons c cs ih => exact ih

theorem dropBlocks_block {cs : List Char} (h : ¬['*', '/'] <:+: cs) (rest : List Char) :
    dropBlocks 0 ('/' :: '*' :: (cs ++ ['*', '/']) ++ rest) = dropBlocks 0 rest := by
  have hlength : blockLength? ('/' :: '*' :: (cs ++ ['*', '/'] ++ rest)) = some (cs.length + 4) := by
    simp [blockLength?, blockEnd?_append_end h]
  have hskip : dropBlocks (cs.length + 3) ('*' :: (cs ++ ['*', '/'] ++ rest)) = dropBlocks 0 rest := by
    simpa using dropBlocks_skip ('*' :: (cs ++ ['*', '/'])) rest
  exact (dropBlocks_of_some hlength).trans hskip

theorem dropBlocks_line {cs rest : List Char} (h : Keeps cs rest) :
    dropBlocks 0 ('/' :: '/' :: (cs ++ ['\n']) ++ rest) =
      dropBlocks 0 ('/' :: '/' :: cs) ++ ['\n'] ++ dropBlocks 0 rest := by
  have hline := dropBlocks_append_line (Nat.zero_le _) h.2
  simpa using hline

/-- **The first pass leaves the pieces as they are** but for their blocks. -/
theorem dropBlocks_pieces {ps : List Piece} (h : Apart ps) :
    dropBlocks 0 (ps.flatMap Piece.text) = ps.flatMap Piece.unblocked := by
  induction ps with
  | nil => rfl
  | cons p ps ih =>
      rw [List.flatMap_cons, List.flatMap_cons]
      cases p with
      | code cs hcs => rw [Piece.text, dropBlocks_code hcs, ih h, Piece.unblocked]
      | line cs hcs => rw [Piece.text, dropBlocks_line h.1, ih h.2, Piece.unblocked]
      | block cs hcs => rw [Piece.text, dropBlocks_block hcs, ih h, Piece.unblocked, List.nil_append]

/-! ### The second pass -/

theorem dropLineComments_code {cs : List Char} (h : '/' ∉ cs) (rest : List Char) :
    dropLineComments false (cs ++ rest) = cs ++ dropLineComments false rest := by
  induction cs with
  | nil => rfl
  | cons c cs ih =>
      have hne : c ≠ '/' := fun hc => h (hc ▸ List.mem_cons_self)
      simp [dropLineComments, hne, ih fun hcs => h (List.mem_cons_of_mem c hcs)]

theorem dropLineComments_inside {cs : List Char} (h : '\n' ∉ cs) (rest : List Char) :
    dropLineComments true (cs ++ '\n' :: rest) = '\n' :: dropLineComments false rest := by
  induction cs with
  | nil => rfl
  | cons c cs ih =>
      have hne : c ≠ '\n' := fun hc => h (hc ▸ List.mem_cons_self)
      simp [dropLineComments, hne, ih fun hcs => h (List.mem_cons_of_mem c hcs)]

/-- What is left of a line comment without its blocks is dropped up to the end of the line. -/
theorem dropLineComments_line {cs : List Char} (h : '\n' ∉ cs) (hline : ['/', '/'] <+: dropBlocks 0 ('/' :: '/' :: cs))
    (rest : List Char) :
    dropLineComments false (dropBlocks 0 ('/' :: '/' :: cs) ++ ['\n'] ++ rest) =
      '\n' :: dropLineComments false rest := by
  obtain ⟨r, hr⟩ := hline
  have hleft : dropBlocks 0 ('/' :: '/' :: cs) = '/' :: '/' :: r := hr.symm
  have hinside : '\n' ∉ '/' :: r := by
    intro hmem
    have hdropped : '\n' ∈ dropBlocks 0 ('/' :: '/' :: cs) := hleft ▸ List.mem_cons_of_mem '/' hmem
    exact h (by simpa using mem_of_mem_dropBlocks hdropped)
  have hbegin : dropLineComments false ('/' :: '/' :: (r ++ '\n' :: rest)) =
      dropLineComments true ('/' :: r ++ '\n' :: rest) := rfl
  have hwhole : '/' :: '/' :: r ++ ['\n'] ++ rest = '/' :: '/' :: (r ++ '\n' :: rest) := by simp
  rw [hleft, hwhole, hbegin, dropLineComments_inside hinside]

/-- **The second pass leaves the code and the ends of lines.** -/
theorem dropLineComments_pieces {ps : List Piece} (h : Apart ps) :
    dropLineComments false (ps.flatMap Piece.unblocked) = ps.flatMap Piece.shown := by
  induction ps with
  | nil => rfl
  | cons p ps ih =>
      rw [List.flatMap_cons, List.flatMap_cons]
      cases p with
      | code cs hcs => rw [Piece.unblocked, dropLineComments_code hcs, ih h, Piece.shown]
      | line cs hcs =>
          rw [Piece.unblocked, dropLineComments_line hcs h.1.1, ih h.2, Piece.shown, List.singleton_append]
      | block cs hcs => rw [Piece.unblocked, List.nil_append, ih h, Piece.shown, List.nil_append]

/-! ### A source without its comments -/

/-- **A source is left without its comments.** -/
theorem stripComments_pieces {ps : List Piece} (h : Apart ps) :
    stripComments (ps.flatMap Piece.text) = ps.flatMap Piece.shown := by
  rw [stripComments, dropBlocks_pieces h, dropLineComments_pieces h]

/-- What is left of a source has no comments. -/
theorem stripComments_shown (ps : List Piece) :
    stripComments (ps.flatMap Piece.shown) = ps.flatMap Piece.shown := by
  refine stripComments_eq_self ?_
  induction ps with
  | nil => exact .nil
  | cons p ps ih =>
      rw [List.flatMap_cons]
      refine isChain_calm_append ?_ ih
      cases p with
      | code cs hcs => exact hcs
      | line cs hcs => simp [Piece.shown]
      | block cs hcs => simp [Piece.shown]

/-- **Comments do not change the catalog** where they stand apart. -/
theorem ofSource_pieces {ps : List Piece} (h : Apart ps) :
    ofSource (written ps) = ofSource (uncommented ps) := by
  simp only [ofSource, functionsOfSource, written, uncommented, String.toList_ofList, stripComments_pieces h,
    stripComments_shown]

/-- Comments of both kinds, with beginnings and ends of others in them. -/
def mixedComments : List Piece :=
  [.code "contract C =\n".toList (by decide +kernel),
    .line " an end */ and a /* whole */ block".toList (by decide +kernel),
    .block " // public function g() = 1\n /* ".toList (by decide +kernel),
    .code "  public function f(a : int ".toList (by decide +kernel),
    .block "*".toList (by decide +kernel),
    .code ") : int = a\n".toList (by decide +kernel),
    .line "**// a block, and still a line".toList (by decide +kernel),
    .line "* not closed".toList (by decide +kernel)]

theorem ofSource_pieces_mixedComments :
    Apart mixedComments ∧ ofSource (written mixedComments) = ofSource (uncommented mixedComments) := by
  have hapart : Apart mixedComments := by decide +kernel
  exact ⟨hapart, ofSource_pieces hapart⟩

/-- A line comment in which a block begins, and a function between it and the next end of a block. -/
def hiddenFunction : List Piece :=
  [.code "contract C =\n".toList (by decide +kernel),
    .line " see contracts/*.aes".toList (by decide +kernel),
    .code "  public function f() : int = 1\n".toList (by decide +kernel),
    .block " done ".toList (by decide +kernel),
    .code "\n".toList (by decide +kernel)]

/-- **A comment may hide a function.** -/
theorem ofSource_hides_function :
    (ofSource (written hiddenFunction)).1.functions = [] ∧
      (ofSource (uncommented hiddenFunction)).1.functions.map (·.name) = [.whole "f"] ∧
      ofSource (written hiddenFunction) ≠ ofSource (uncommented hiddenFunction) := by
  have hwritten : (ofSource (written hiddenFunction)).1.functions = [] := by decide +kernel
  have hshown : (ofSource (uncommented hiddenFunction)).1.functions.map (·.name) = [.whole "f"] := by decide +kernel
  refine ⟨hwritten, hshown, fun he => ?_⟩
  rw [← he, hwritten] at hshown
  cases hshown

end SophiaBind.Catalog
