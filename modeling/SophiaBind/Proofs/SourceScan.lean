/-
**The functions of a source are found as they are declared.**

The scan passes over a text in which none of its words begins, comes upon the words of a declaration, takes
it up to the equals sign, and passes over the body. A word does not reach over a blank, so that it is
enough to look between the blanks around it.

Main definitions:

* `Catalog.Passed` — a text over which the scan passes, whatever follows it,
* `Catalog.Heading` — what may stand in front of declarations,
* `Catalog.Written.declaration`, `Catalog.Written.line` — what the scan finds of a declaration.

Main results:

* `Catalog.stripComments_eq_self` — a text without beginnings of comments has none,
* `Catalog.declaration?_found` — **a declaration is read as it is written**,
* `Catalog.declarations_source` — the scan finds the declarations of a source in order,
* `Catalog.get?_ofFunctions` — the last function of a name counts,
* `Catalog.ofSource_sourceText` — **the catalog of a source has its callable functions.**
-/

import Mathlib.Data.List.Chain
import SophiaBind.Proofs.Characters
import SophiaBind.Proofs.SourceSignature

namespace SophiaBind.Catalog

/-! ### Comments -/

/-- Two characters with which no comment begins. -/
def Calm (a b : Char) : Prop :=
  a = '/' → b ≠ '/' ∧ b ≠ '*'

theorem blockLength?_eq_none {c : Char} {cs : List Char} (h : (c :: cs).IsChain Calm) :
    blockLength? (c :: cs) = none := by
  unfold blockLength?
  split
  · next heq =>
      obtain ⟨rfl, rfl⟩ := List.cons.inj heq
      exact absurd rfl ((List.isChain_cons_cons.1 h).1 rfl).2
  · rfl

theorem dropBlocks_eq_self {cs : List Char} (h : cs.IsChain Calm) : dropBlocks 0 cs = cs := by
  induction cs with
  | nil => rfl
  | cons c cs ih => simp only [dropBlocks, blockLength?_eq_none h, ih h.tail]

theorem dropLineComments_eq_self {cs : List Char} (h : cs.IsChain Calm) : dropLineComments false cs = cs := by
  induction cs with
  | nil => rfl
  | cons c cs ih =>
      have hno : ¬(c = '/' ∧ cs.head? = some '/') := fun ⟨hc, hhead⟩ =>
        ((List.isChain_cons.1 h).1 '/' hhead hc).1 rfl
      have hrest := ih h.tail
      simp [dropLineComments, hno, hrest]

/-- **A text without beginnings of comments has none.** -/
theorem stripComments_eq_self {cs : List Char} (h : cs.IsChain Calm) : stripComments cs = cs := by
  rw [stripComments, dropBlocks_eq_self h, dropLineComments_eq_self h]

/-- What has no slash begins no comment, with what follows it either. -/
theorem isChain_calm_append {cs ds : List Char} (hcs : '/' ∉ cs) (hds : ds.IsChain Calm) :
    (cs ++ ds).IsChain Calm := by
  induction cs with
  | nil => exact hds
  | cons c cs ih =>
      refine List.isChain_cons.2 ⟨?_, ih fun h => hcs (List.mem_cons_of_mem c h)⟩
      rintro - - rfl
      exact absurd List.mem_cons_self hcs

/-- A body begins no comment, with the line feed behind it either. -/
theorem isChain_calm_body (body : Body) {cs : List Char} (hcs : cs.IsChain Calm) :
    (body.1 ++ '\n' :: cs).IsChain Calm := by
  have hpair : ∀ word ∈ ["//", "/*"], ¬word.toList <:+: body.1 := fun word hword =>
    body.2 word (List.mem_append_right keywords hword)
  have hbody : body.1.IsChain Calm := by
    refine List.isChain_iff_forall_rel_of_append_cons_cons.2 ?_
    rintro a b front behind he rfl
    have hinfix : ['/', b] <:+: body.1 := ⟨front, behind, by simp [he]⟩
    constructor
    · rintro rfl
      exact hpair "//" (by simp) hinfix
    · rintro rfl
      exact hpair "/*" (by simp) hinfix
  refine List.isChain_append.2 ⟨hbody, isChain_calm_append (show '/' ∉ ['\n'] by decide) hcs, ?_⟩
  rintro a - b hb -
  obtain rfl : '\n' = b := by simpa using hb
  decide

/-! ### Passing over a text -/

theorem afterWord?_eq_none {word cs : List Char} (h : ¬word <+: cs) : afterWord? word cs = none := by
  have hno : word.isPrefixOf cs = false := by
    rw [← Bool.not_eq_true, List.isPrefixOf_iff_prefix]
    exact h
  simp [afterWord?, after?, hno]

/-- No declaration begins where none of the words does. -/
theorem declaration?_eq_none {cs : List Char} (h : ∀ word ∈ keywords, ¬word.toList <+: cs) :
    declaration? cs = none := by
  have hword : ∀ word ∈ keywords, afterWord? word.toList cs = none := fun word hw =>
    afterWord?_eq_none (h word hw)
  have hmodifiers : skipModifier "stateful".toList (skipModifier "public".toList cs) = cs := by
    rw [skipModifier, skipModifier, hword "public" (by decide), Option.getD_none, hword "stateful" (by decide),
      Option.getD_none]
  rw [declaration?, hmodifiers, afterKeyword?, hword "function" (by decide), hword "entrypoint" (by decide)]

/-- A word does not reach over a character that it does not have. -/
theorem prefix_of_prefix_append {word cs rest : List Char} {c : Char} (hc : c ∉ word)
    (h : word <+: cs ++ c :: rest) : word <+: cs := by
  have hup : cs ++ [c] <+: cs ++ c :: rest := ⟨rest, by simp⟩
  rcases List.prefix_or_prefix_of_prefix h hup with hword | hword
  · rcases List.prefix_concat_iff.1 hword with rfl | hword
    · exact absurd (by simp) hc
    · exact hword
  · exact absurd (hword.subset (by simp)) hc

theorem declarationsFrom_cons (line : List Char) (c : Char) (r : List Char) :
    declarationsFrom 0 line (c :: r) =
      match declaration? (c :: r) with
      | none => declarationsFrom 0 (extendLine line c) r
      | some d =>
        (d, line.reverse ++ (c :: r).take d.length) :: declarationsFrom (d.length - 1) (extendLine line c) r := by
  rfl

/-- A text over which the scan passes, whatever follows it. -/
def Passed (cs : List Char) : Prop :=
  ∀ line rest, declarationsFrom 0 line (cs ++ rest) = declarationsFrom 0 (cs.foldl extendLine line) rest

theorem Passed.append {cs ds : List Char} (hcs : Passed cs) (hds : Passed ds) : Passed (cs ++ ds) := by
  intro line rest
  rw [List.append_assoc, hcs, hds, List.foldl_append]

/-- The scan passes over a text that says none of the words, with a character behind it that none of them has. -/
theorem passed_concat {cs : List Char} {c : Char} (hc : ∀ word ∈ keywords, c ∉ word.toList)
    (hcs : ∀ word ∈ keywords, ¬word.toList <:+: cs) : Passed (cs ++ [c]) := by
  intro line rest
  -- no word is empty, so that one that begins here begins with a character of the text
  have hnil : ∀ word ∈ keywords, ¬word.toList <+: [] := by decide
  rw [List.append_assoc, List.singleton_append]
  induction cs generalizing line with
  | nil =>
      have hnone : declaration? ([] ++ c :: rest) = none := declaration?_eq_none fun word hword h =>
        hnil word hword (prefix_of_prefix_append (hc word hword) h)
      rw [List.nil_append] at hnone ⊢
      rw [declarationsFrom_cons, hnone]
      rfl
  | cons d cs ih =>
      have hnone : declaration? (d :: cs ++ c :: rest) = none := declaration?_eq_none fun word hword h =>
        hcs word hword (prefix_of_prefix_append (hc word hword) h).isInfix
      have hrest := ih (fun word hword h => hcs word hword (h.trans (List.suffix_cons d cs).isInfix))
        (extendLine line d)
      rw [List.cons_append] at hnone ⊢
      rw [declarationsFrom_cons, hnone]
      exact hrest

/-- The scan goes on behind a declaration. -/
theorem declarationsFrom_skip (cs rest : List Char) (line : List Char) :
    declarationsFrom cs.length line (cs ++ rest) = declarationsFrom 0 (cs.foldl extendLine line) rest := by
  induction cs generalizing line with
  | nil => rfl
  | cons c cs ih => exact ih (extendLine line c)

/-- The scan takes what it finds. -/
theorem declarationsFrom_found {cs rest line : List Char} {d : Declaration} (hd : declaration? (cs ++ rest) = some d)
    (hlength : d.length = cs.length) (hne : cs ≠ []) :
    declarationsFrom 0 line (cs ++ rest) =
      (d, line.reverse ++ cs) :: declarationsFrom 0 (cs.foldl extendLine line) rest := by
  obtain ⟨c, cs, rfl⟩ := List.exists_cons_of_ne_nil hne
  have hline : (c :: (cs ++ rest)).take d.length = c :: cs := by
    rw [hlength]
    exact List.take_left' rfl
  have hskip : d.length - 1 = cs.length := by simp [hlength]
  rw [List.cons_append] at hd ⊢
  rw [declarationsFrom_cons, hd]
  simp only [hline, hskip, declarationsFrom_skip, List.foldl_cons]

/-! ### One declaration -/

/-- What stands in front of the place where a declaration begins. -/
def Form.lead : Form → List Char
  | .entrypoint true _ => [' ', ' '] ++ ("payable".toList ++ [' '])
  | .privateFunction => [' ', ' '] ++ ("private".toList ++ [' '])
  | _ => [' ', ' ']

/-- The words with which a declaration begins. -/
def Form.core : Form → List Char
  | .publicFunction false => "public function".toList
  | .publicFunction true => "public stateful function".toList
  | .entrypoint _ false => "entrypoint".toList
  | .entrypoint _ true => "stateful entrypoint".toList
  | .function false => "function".toList
  | .function true => "stateful function".toList
  | .privateFunction => "function".toList

theorem Form.lead_append_core (form : Form) : form.lead ++ form.core = "  ".toList ++ form.words.toList := by
  rcases form with (_ | _) | ⟨_ | _, _ | _⟩ | (_ | _) | _ <;> rfl

/-- The keyword is found behind the modifiers. -/
theorem Form.afterKeyword?_core (form : Form) (rest : List Char) :
    afterKeyword? (skipModifier "stateful".toList (skipModifier "public".toList (form.core ++ ' ' :: rest))) =
      some (Text.trimStart rest) := by
  rcases form with (_ | _) | ⟨_ | _, _ | _⟩ | (_ | _) | _ <;> rfl

/-- The line tells public forms from the others. -/
theorem Form.isPublic_line (form : Form) (rest : List Char) :
    Catalog.isPublic (form.lead ++ (form.core ++ ' ' :: rest)) = form.isPublic := by
  rcases form with (_ | _) | ⟨_ | _, _ | _⟩ | (_ | _) | _ <;> rfl

theorem Form.passed_lead (form : Form) : Passed form.lead := by
  have hspace : ∀ word ∈ keywords, ' ' ∉ word.toList := by decide
  have hblank : Passed ([] ++ [' ']) := passed_concat hspace (by decide +kernel)
  have hblanks : Passed [' ', ' '] := hblank.append hblank
  have hpayable : Passed ("payable".toList ++ [' ']) := passed_concat hspace (by decide +kernel)
  have hprivate : Passed ("private".toList ++ [' ']) := passed_concat hspace (by decide +kernel)
  rcases form with _ | ⟨_ | _, _⟩ | _ | _
  · exact hblanks
  · exact hblanks
  · exact hblanks.append hpayable
  · exact hblanks
  · exact hblanks.append hprivate

theorem Form.foldl_lead (form : Form) : form.lead.foldl extendLine [] = form.lead.reverse := by
  rcases form with _ | ⟨_ | _, _⟩ | _ | _ <;> rfl

namespace Written

variable (d : Written)

/-- What the scan takes of a declaration. -/
def found : List Char :=
  d.form.core ++ ' ' :: (d.name.1 ++ '(' :: (d.listText ++ ['=']))

/-- The line on which a declaration begins, up to its equals sign. -/
def line : List Char :=
  d.form.lead ++ d.found

/-- What the scan reads of a declaration. -/
def declaration : Declaration where
  name := d.name.1
  parameters := d.parametersText
  returns := d.returns.map fun t => t.tree.renderChars
  length := d.found.length

theorem text_eq : d.text = d.form.lead ++ (d.found ++ (' ' :: (d.body.1 ++ ['\n']))) := by
  rw [text, ← List.append_assoc, ← d.form.lead_append_core, found]
  simp only [List.append_assoc, List.cons_append, List.nil_append]

end Written

/-- The name ends where the parentheses begin. -/
theorem span_name (name : FunctionName) (rest : List Char) :
    (name.1 ++ '(' :: rest).takeWhile isNameChar = name.1 ∧
      (name.1 ++ '(' :: rest).dropWhile isNameChar = '(' :: rest :=
  Text.span_append name.2.2 (by simp; decide)

theorem isBlank_of_isNameChar {c : Char} (h : isNameChar c = true) : Text.isBlank c = false := by
  cases hb : Text.isBlank c with
  | false => rfl
  | true =>
      simp only [isNameChar, Text.isWord, Text.isAlphanumeric_of_isBlank hb, Bool.false_or, Bool.or_eq_true,
        beq_iff_eq] at h
      rcases h with rfl | rfl <;> revert hb <;> decide

theorem trimStart_name (name : FunctionName) (rest : List Char) :
    Text.trimStart (name.1 ++ rest) = name.1 ++ rest := by
  obtain ⟨c, r, hc⟩ := List.exists_cons_of_ne_nil name.2.1
  have hchar := name.2.2 c (hc ▸ List.mem_cons_self)
  exact Text.trimStart_eq_self (by simp [hc, isBlank_of_isNameChar hchar])

/-- The signature ends with the first equals sign. -/
theorem takeWhile_listText (d : Written) (rest : List Char) :
    (d.listText ++ '=' :: rest).takeWhile (· != '=') = d.listText := by
  refine (Text.span_append (fun c hc => ?_) (by simp)).1
  simp only [bne_iff_ne]
  rintro rfl
  exact not_mem_listText (by decide) d hc

/-- **A declaration is read as it is written.** -/
theorem declaration?_found (d : Written) (rest : List Char) :
    declaration? (d.found ++ rest) = some d.declaration := by
  have hfound : d.found ++ rest = d.form.core ++ ' ' :: (d.name.1 ++ '(' :: (d.listText ++ '=' :: rest)) := by
    simp [Written.found]
  have hopen : Text.trimStart ('(' :: (d.listText ++ '=' :: rest)) = '(' :: (d.listText ++ '=' :: rest) :=
    Text.trimStart_eq_self (by simp; decide)
  have hname := span_name d.name (d.listText ++ '=' :: rest)
  have hmore : d.listText.length ≠ (d.listText ++ '=' :: rest).length := by simp
  have hrest : (d.listText ++ '=' :: rest).drop (d.listText.length + 1) = rest := by
    rw [List.drop_length_add_append]
    rfl
  have hlength : (d.found ++ rest).length - rest.length = d.found.length := by simp
  rw [hfound] at hlength ⊢
  rw [declaration?, d.form.afterKeyword?_core, trimStart_name]
  simp only [hname, d.name.2.1, if_false, hopen, takeWhile_listText, if_neg hmore, parametersAndResult?_listText,
    hrest, hlength]
  rfl

/-! ### A whole source -/

/-- The scan passes over a body. -/
theorem passed_body (body : Body) : Passed ([' '] ++ (body.1 ++ ['\n'])) := by
  have hblank : Passed ([] ++ [' ']) := passed_concat (by decide) (by decide)
  have hbody : Passed (body.1 ++ ['\n']) := passed_concat (by decide) fun word hword =>
    body.2 word (List.mem_append_left ["//", "/*"] hword)
  exact hblank.append hbody

/-- A line feed ends the line. -/
theorem foldl_extendLine_concat (line cs : List Char) : (cs ++ ['\n']).foldl extendLine line = [] := by
  simp [List.foldl_append, extendLine]

/-- **The scan finds a declaration at the beginning of a line** and goes on at the beginning of another. -/
theorem declarationsFrom_text (d : Written) (rest : List Char) :
    declarationsFrom 0 [] (d.text ++ rest) = (d.declaration, d.line) :: declarationsFrom 0 [] rest := by
  have hne : d.found ≠ [] := by simp [Written.found]
  have hsplit : d.text ++ rest = d.form.lead ++ (d.found ++ ([' '] ++ (d.body.1 ++ ['\n']) ++ rest)) := by
    simp [d.text_eq]
  have hend : ∀ line, ([' '] ++ (d.body.1 ++ ['\n'])).foldl extendLine line = [] := fun line =>
    foldl_extendLine_concat line (' ' :: d.body.1)
  rw [hsplit, d.form.passed_lead, d.form.foldl_lead, declarationsFrom_found (declaration?_found d _) rfl hne,
    List.reverse_reverse, passed_body, hend]
  rfl

/-- What may stand in front of declarations: lines that declare nothing and begin no comment. -/
structure Heading (cs : List Char) : Prop where
  passed : Passed cs
  ends : cs.foldl extendLine [] = []
  calm : ∀ {rest : List Char}, rest.IsChain Calm → (cs ++ rest).IsChain Calm

theorem heading_nil : Heading [] where
  passed _ _ := rfl
  ends := rfl
  calm h := h

/-- A line that says none of the words and begins no comment. -/
theorem heading_line (line : Body) : Heading (line.1 ++ ['\n']) where
  passed := passed_concat (by decide) fun word hword => line.2 word (List.mem_append_left ["//", "/*"] hword)
  ends := foldl_extendLine_concat [] line.1
  calm h := by
    rw [List.append_assoc]
    exact isChain_calm_body line h

theorem Heading.append {cs ds : List Char} (hcs : Heading cs) (hds : Heading ds) : Heading (cs ++ ds) where
  passed := hcs.passed.append hds.passed
  ends := by rw [List.foldl_append, hcs.ends, hds.ends]
  calm h := by
    rw [List.append_assoc]
    exact hcs.calm (hds.calm h)

/-- The line that opens a contract. -/
theorem heading_contract : Heading "contract C =\n".toList :=
  heading_line ⟨"contract C =".toList, by decide +kernel⟩

variable {heading : List Char}

/-- **The scan finds the declarations of a source** in order. -/
theorem declarations_source (h : Heading heading) (ds : List Written) :
    declarations (heading ++ ds.flatMap Written.text) = ds.map fun d => (d.declaration, d.line) := by
  rw [declarations, h.passed, h.ends]
  induction ds with
  | nil => rfl
  | cons d ds ih => rw [List.flatMap_cons, declarationsFrom_text, ih, List.map_cons]

theorem Form.not_mem_lead (form : Form) : '/' ∉ form.lead := by
  rcases form with (_ | _) | ⟨_ | _, _ | _⟩ | (_ | _) | _ <;> decide

theorem Form.not_mem_core (form : Form) : '/' ∉ form.core := by
  rcases form with (_ | _) | ⟨_ | _, _ | _⟩ | (_ | _) | _ <;> decide

/-- What the scan takes has no slash. -/
theorem Written.not_mem_found (d : Written) : '/' ∉ d.found := by
  have hname : '/' ∉ d.name.1 := fun h => absurd (d.name.2.2 '/' h) (by decide)
  have hlist := not_mem_listText (c := '/') (by decide) d
  simp [Written.found, d.form.not_mem_core, hname, hlist]

/-- A declaration begins no comment, with what follows it either. -/
theorem isChain_calm_text (d : Written) {cs : List Char} (hcs : cs.IsChain Calm) : (d.text ++ cs).IsChain Calm := by
  have hsplit : d.text ++ cs = d.form.lead ++ (d.found ++ ([' '] ++ (d.body.1 ++ '\n' :: cs))) := by
    simp [d.text_eq]
  rw [hsplit]
  refine isChain_calm_append d.form.not_mem_lead (isChain_calm_append d.not_mem_found ?_)
  exact isChain_calm_append (show '/' ∉ [' '] by decide) (isChain_calm_body d.body hcs)

theorem stripComments_source (h : Heading heading) (ds : List Written) :
    stripComments (heading ++ ds.flatMap Written.text) = heading ++ ds.flatMap Written.text := by
  refine stripComments_eq_self (h.calm ?_)
  induction ds with
  | nil => exact .nil
  | cons d ds ih =>
      rw [List.flatMap_cons]
      exact isChain_calm_text d ih

/-! ### The catalog -/

/-- The function that is read of a declaration. -/
def Written.read (d : Written) : ContractFunction :=
  functionOfDeclaration d.declaration d.line

/-- It is the one that is declared, but for whether it is stateful. -/
theorem unflagged_read (d : Written) : unflagged d.read = d.function := by
  cases hreturns : d.returns with
  | none => simp [unflagged, Written.read, functionOfDeclaration, Written.declaration, Written.function, hreturns,
      parametersOf_parametersText]
  | some t => simp [unflagged, Written.read, functionOfDeclaration, Written.declaration, Written.function, hreturns,
      parametersOf_parametersText, TypeTree.render]

theorem isPublic_line (d : Written) : isPublic d.line = d.form.isPublic := by
  rw [Written.line, Written.found]
  exact d.form.isPublic_line _

theorem functionsOfSource_source (h : Heading heading) (ds : List Written) :
    functionsOfSource (heading ++ ds.flatMap Written.text) =
      (ds.filter fun d => d.form.isPublic).map Written.read := by
  rw [functionsOfSource, stripComments_source h, declarations_source h]
  simp only [List.filter_map, List.map_map, Function.comp_def, isPublic_line]
  rfl

theorem functionsOfSource_sourceText (ds : List Written) :
    functionsOfSource (sourceText ds).toList = (ds.filter fun d => d.form.isPublic).map Written.read := by
  have hchars : (sourceText ds).toList = "contract C =\n".toList ++ ds.flatMap Written.text := String.toList_ofList
  rw [hchars, functionsOfSource_source heading_contract]

/-- Functions are put under their names one after the other, whatever is said about them. -/
theorem enterAll_fst (lookup : List (LooseText × ContractFunction)) (functions : List ContractFunction) :
    (enterAll lookup functions).1 = Keyed.putAll lookup (functions.map fun f => (f.name, f)) := by
  induction functions generalizing lookup with
  | nil => rfl
  | cons f rest ih =>
      have hput : (enterAll lookup (f :: rest)).1 = (enterAll (Keyed.put lookup f.name f) rest).1 := by
        simp only [enterAll]
        split <;> rfl
      rw [hput, ih]
      rfl

/-- The last function of a name is entered, if there is one. -/
theorem lookup_enterAll (lookup : List (LooseText × ContractFunction)) (functions : List ContractFunction)
    (name : LooseText) : (enterAll lookup functions).1.lookup name =
      (functions.filter (·.name == name)).getLast?.or (lookup.lookup name) := by
  rw [enterAll_fst]
  induction functions generalizing lookup with
  | nil => rfl
  | cons f rest ih =>
      rw [List.map_cons, Keyed.putAll, List.foldl_cons, ← Keyed.putAll, ih]
      by_cases hname : f.name = name
      · subst hname
        rw [Keyed.lookup_put_self, List.filter_cons_of_pos (by simp), List.getLast?_cons]
        cases (rest.filter (·.name == f.name)).getLast? <;> rfl
      · rw [Keyed.lookup_put_of_ne lookup f (Ne.symm hname), List.filter_cons_of_neg (by simpa using hname)]

/-- **The last function of a name counts.** -/
theorem get?_ofFunctions (functions : List ContractFunction) (name : LooseText) :
    (ofFunctions functions).1.get? name =
      ((ofFunctions functions).1.functions.filter (·.name == name)).getLast? := by
  have h := lookup_enterAll [] (functions.filter fun f => !isReserved f.name) name
  rw [List.lookup_nil, Option.or_none] at h
  exact h

/-- **The catalog of a source has its callable functions**, each as it is declared and in order, and of functions of
one name the last one counts. -/
theorem ofSource_sourceText (ds : List Written) :
    (ofSource (sourceText ds)).1.functions.map unflagged = (ds.filter Written.isCallable).map Written.function ∧
    ∀ name, ((ofSource (sourceText ds)).1.get? name).map unflagged =
      (((ds.filter Written.isCallable).map Written.function).filter (·.name == name)).getLast? := by
  have hcallable : ∀ d : Written, (!isReserved d.read.name && d.form.isPublic) = d.isCallable := by
    intro d
    have hname : isReserved d.read.name = (String.ofList d.name.1 == "init") := by
      rw [Bool.eq_iff_iff]
      simp [isReserved, Written.read, functionOfDeclaration, Written.declaration]
    rw [hname, Written.isCallable, Bool.and_comm, bne]
  have hfunctions : (ofSource (sourceText ds)).1.functions.map unflagged =
      (ds.filter Written.isCallable).map Written.function := by
    rw [ofSource, functionsOfSource_sourceText]
    simp only [ofFunctions, List.filter_map, List.filter_filter, List.map_map, Function.comp_def, hcallable,
      unflagged_read]
  refine ⟨hfunctions, fun name => ?_⟩
  rw [ofSource, get?_ofFunctions, ← hfunctions]
  simp only [ofSource, List.filter_map, List.getLast?_map]
  rfl

end SophiaBind.Catalog
