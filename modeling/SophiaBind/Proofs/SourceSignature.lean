/-
**Signatures are read as they are written.**

The parameters of a declaration end at the first closing parenthesis behind which nothing but a result can
stand. Every other one closes a type, and behind a type comes a comma or another parenthesis, never a colon.

Main results:

* `Catalog.parameterOfText_text`, `Catalog.parametersOf_parametersText` — **parameters are read back**,
* `Catalog.parametersAndResult?_append` — parameters end where no colon was next,
* `Catalog.parametersAndResult?_listText` — **parameters and result are told apart**.
-/

import SophiaBind.Proofs.SourceText

namespace SophiaBind.Catalog

open TypeTree (joinCommas joinCommas_cons mem_joinCommas)

/-! ### Types -/

namespace WrittenType

variable (t : WrittenType)

theorem nested : Text.Nested 0 t.text := by
  have h := (typeText_renderChars t.identified).nested
  rw [← t.spells] at h
  exact .of_squeeze h

theorem squeeze_ne_nil : Text.squeeze t.text ≠ [] := by
  rw [t.spells]
  exact (typeText_renderChars t.identified).ne_nil

theorem text_ne_nil : t.text ≠ [] := by
  intro h
  apply t.squeeze_ne_nil
  rw [h]
  rfl

/-- A type has no colon, no equals sign and no slash. -/
theorem not_mem {c : Char} (h : c ∈ [':', '=', '/']) : c ∉ t.text := by
  intro hc
  have hmark : c ∈ marks := List.mem_append_right [',', '(', '{', '[', ')', '}', ']'] h
  have hsqueezed : c ∈ t.tree.renderChars := by
    rw [← t.spells]
    exact List.mem_filter.2 ⟨hc, by simp [not_isBlank_of_mem_marks c hmark]⟩
  rcases (typeText_renderChars t.identified).mem hsqueezed with hno | hno
  · exact hno hmark
  · have hapart : ∀ d ∈ [':', '=', '/'], d ∉ ['(', ')', ','] := List.all_iff_forall_prop.1 (by decide)
    exact hapart c h hno

end WrittenType

/-- A type behind a colon has no equals sign and no slash. -/
theorem not_mem_behindColon {c : Char} (h : c ∈ ['=', '/']) (type : Option WrittenType) :
    c ∉ behindColon type := by
  cases type with
  | none => exact List.not_mem_nil
  | some t =>
      intro hc
      rcases List.mem_cons.1 hc with rfl | hc
      · revert h
        decide
      · exact t.not_mem (List.mem_cons_of_mem ':' h) hc

/-! ### Parameters -/

namespace WrittenParameter

variable (p : WrittenParameter)

/-- The name of a parameter with the blanks around it. -/
def label : List Char :=
  p.before.1 ++ (p.name.1 ++ p.behind.1)

theorem text_eq : p.text = p.label ++ behindColon p.type := by
  simp [text, label]

/-- A label is of blanks and of the name's characters. -/
theorem not_mem_label {c : Char} (h : c ∈ marks) : c ∉ p.label := by
  have hblank := not_isBlank_of_mem_marks c h
  intro hc
  rcases List.mem_append.1 hc with hc | hc
  · simp [p.before.2 c hc] at hblank
  · rcases List.mem_append.1 hc with hc | hc
    · exact (p.name.2.2 c hc).2 h
    · simp [p.behind.2 c hc] at hblank

theorem trim_label : Text.trim p.label = p.name.1 :=
  Text.trim_append p.before.2 (fun c hc => (p.name.2.2 c (List.mem_of_mem_head? hc)).1)
    (fun c hc => (p.name.2.2 c (List.mem_of_mem_getLast? hc)).1) p.behind.2 p.name.2.1

theorem not_mem_text {c : Char} (h : c ∈ ['=', '/']) : c ∉ p.text := by
  rw [text_eq, List.mem_append, not_or]
  exact ⟨p.not_mem_label (List.mem_append_right [',', '(', '{', '[', ')', '}', ']', ':'] h),
    not_mem_behindColon h p.type⟩

theorem nested : Text.Nested 0 p.text := by
  have hlabel : Text.Nested 0 p.label :=
    .of_forall fun c hc hmark => p.not_mem_label (List.mem_append_left [':', '=', '/'] hmark) hc
  rw [text_eq]
  refine hlabel.append ?_
  cases p.type with
  | none => exact .nil
  | some t =>
      have hcolon : Text.Nested 0 [':'] := .of_forall (List.all_iff_forall_prop.1 (by decide))
      exact hcolon.append t.nested

end WrittenParameter

/-- **A parameter is read back.** -/
theorem parameterOfText_text (p : WrittenParameter) : parameterOfText p.text = p.parameter := by
  have hlabel : ∀ c ∈ p.label, (c != ':') = true := by
    intro c hc
    simp only [bne_iff_ne]
    rintro rfl
    exact p.not_mem_label (by decide) hc
  have hname : ∀ {rest : List Char}, (∀ c ∈ rest.head?, c = ':') →
      (p.label ++ rest).takeWhile (· != ':') = p.label := fun hrest =>
    (Text.span_append hlabel fun c hc => by simp [hrest c hc]).1
  rw [p.text_eq, WrittenParameter.parameter, parameterOfText]
  cases htype : p.type with
  | none =>
      rw [hname (by simp [behindColon]), p.trim_label]
      simp [behindColon, Text.squeeze, List.drop_eq_nil_of_le]
  | some t =>
      have hdrop : (p.label ++ ':' :: t.text).drop (p.label.length + 1) = t.text := by
        rw [List.drop_length_add_append]
        rfl
      rw [hname (by simp [behindColon]), p.trim_label, behindColon, hdrop, if_neg t.squeeze_ne_nil, t.spells]
      rfl

/-- The text of parameters is not blank, since each has a name. -/
theorem all_isBlank_parametersText {d : Written} (h : d.parameters ≠ []) :
    d.parametersText.all Text.isBlank = false := by
  obtain ⟨p, ps, hps⟩ := List.exists_cons_of_ne_nil h
  obtain ⟨c, hc⟩ := List.exists_mem_of_ne_nil p.name.1 p.name.2.1
  obtain ⟨hblank, hmark⟩ := p.name.2.2 c hc
  have hcomma : c ≠ ',' := by
    rintro rfl
    exact hmark (by decide)
  have hlabel : c ∈ p.text := by simp [WrittenParameter.text, hc]
  have hmem : c ∈ d.parametersText := (mem_joinCommas hcomma _).2 ⟨p.text, by simp [hps], hlabel⟩
  exact List.all_eq_false.2 ⟨c, hmem, by simp [hblank]⟩

/-- **The parameters of a declaration are read back.** -/
theorem parametersOf_parametersText (d : Written) :
    parametersOf d.parametersText = d.parameters.map WrittenParameter.parameter := by
  by_cases hnone : d.parameters = []
  · simp [Written.parametersText, hnone, joinCommas, parametersOf]
  · have hsplit : Text.splitOutside d.parametersText [','] = d.parameters.map WrittenParameter.text := by
      refine Text.splitOutside_joinCommas (by simp [hnone]) ?_
      simpa using fun p _ => p.nested
    rw [parametersOf, all_isBlank_parametersText hnone, hsplit]
    simp [parameterOfText_text]

/-- Parameters have no equals sign and no slash. -/
theorem not_mem_parametersText {c : Char} (h : c ∈ ['=', '/']) (d : Written) : c ∉ d.parametersText := by
  have hcomma : c ≠ ',' := by
    rintro rfl
    revert h
    decide
  rw [Written.parametersText, mem_joinCommas hcomma]
  simpa using fun p _ => p.not_mem_text h

/-! ### Where the parameters end -/

/-- No closing parenthesis has a colon next. -/
def Kept (cs : List Char) : Prop :=
  ∀ front behind, cs = front ++ ')' :: behind → (Text.trimStart behind).head? ≠ some ':'

theorem Kept.of_cons {c : Char} {cs : List Char} (h : Kept (c :: cs)) : Kept cs :=
  fun front behind he => h (c :: front) behind (by rw [he, List.cons_append])

/-- Where there is no colon, none is next. -/
theorem Kept.of_not_mem {cs : List Char} (h : ':' ∉ cs) : Kept cs := by
  intro front behind he hcolon
  have hmem : ':' ∈ Text.trimStart behind := List.mem_of_mem_head? hcolon
  apply h
  rw [he]
  exact List.mem_append_right front (List.mem_cons_of_mem _ (List.dropWhile_sublist _ |>.subset hmem))

/-- Neither is one where no parenthesis is closed. -/
theorem Kept.append_of_not_mem {cs ds : List Char} (hcs : ')' ∉ cs) (hds : Kept ds) : Kept (cs ++ ds) := by
  induction cs with
  | nil => exact hds
  | cons c cs ih =>
      have hrest := ih fun h => hcs (List.mem_cons_of_mem c h)
      intro front behind he
      cases front with
      | nil =>
          obtain ⟨rfl, -⟩ := List.cons.inj he
          exact absurd List.mem_cons_self hcs
      | cons d front => exact hrest front behind (List.cons.inj he).2

theorem head?_trimStart_append {c : Char} (hc : Text.isBlank c = false) (cs ds : List Char) :
    (Text.trimStart (cs ++ c :: ds)).head? = (Text.trimStart cs).head?.or (some c) := by
  induction cs with
  | nil => simp [Text.trimStart, hc]
  | cons d cs ih =>
      cases hd : Text.isBlank d with
      | true => simpa [Text.trimStart, hd] using ih
      | false => simp [Text.trimStart, hd]

/-- A character that is neither blank nor a colon keeps apart what is around it. -/
theorem Kept.append {c : Char} {cs ds : List Char} (hcs : Kept cs) (hc : Text.isBlank c = false) (hcolon : c ≠ ':')
    (hds : Kept (c :: ds)) : Kept (cs ++ c :: ds) := by
  induction cs with
  | nil => exact hds
  | cons d cs ih =>
      intro front behind he
      cases front with
      | nil =>
          obtain ⟨rfl, rfl⟩ := List.cons.inj he
          have hnext := hcs [] cs rfl
          change (Text.trimStart (cs ++ c :: ds)).head? ≠ some ':'
          rw [head?_trimStart_append hc]
          cases hhead : (Text.trimStart cs).head? with
          | none => simpa using hcolon
          | some e => simpa [hhead] using hnext
      | cons e front => exact ih hcs.of_cons front behind (List.cons.inj he).2

theorem WrittenParameter.kept (p : WrittenParameter) : Kept p.text := by
  rw [p.text_eq]
  refine .append_of_not_mem (p.not_mem_label (by decide)) ?_
  cases p.type with
  | none => exact .of_not_mem List.not_mem_nil
  | some t => exact Kept.append_of_not_mem (show ')' ∉ [':'] by decide) (.of_not_mem (t.not_mem (by decide)))

theorem kept_parametersText (d : Written) : Kept d.parametersText := by
  have hjoin : ∀ ps : List WrittenParameter, Kept (joinCommas (ps.map WrittenParameter.text)) := by
    intro ps
    induction ps with
    | nil => exact .of_not_mem List.not_mem_nil
    | cons p ps ih =>
        cases ps with
        | nil => exact p.kept
        | cons q ps =>
            rw [List.map_cons, List.map_cons, joinCommas_cons _ (List.cons_ne_nil _ _)]
            exact p.kept.append (by decide) (by decide) (.append_of_not_mem (show ')' ∉ [','] by decide) ih)
  exact hjoin d.parameters

/-- Where something other than a colon is next, nothing has ended. -/
theorem resultOf?_eq_none {cs : List Char} {c : Char} (h : (Text.trimStart cs).head? = some c) (hc : c ≠ ':') :
    resultOf? cs = none := by
  rw [resultOf?]
  split
  · next hnil => simp [hnil] at h
  · next hcolon =>
      rw [hcolon] at h
      exact absurd (Option.some.inj h).symm hc
  · rfl

/-- **Parameters end at the first closing parenthesis behind which a result can stand.** -/
theorem parametersAndResult?_append {cs rest : List Char} {result : Option (List Char)} (hcs : Kept cs)
    (hresult : resultOf? rest = some result) : parametersAndResult? (cs ++ ')' :: rest) = some (cs, result) := by
  induction cs with
  | nil => simp [parametersAndResult?, hresult]
  | cons c cs ih =>
      have hrest := ih hcs.of_cons
      by_cases hc : c = ')'
      · subst hc
        -- what is next is neither the end nor a colon
        have hnext : ∃ d, (Text.trimStart (cs ++ ')' :: rest)).head? = some d ∧ d ≠ ':' := by
          have hno := hcs [] cs rfl
          rw [head?_trimStart_append (by decide)]
          cases hhead : (Text.trimStart cs).head? with
          | none => exact ⟨')', rfl, by decide⟩
          | some d => exact ⟨d, rfl, fun h => hno (by rw [hhead, h])⟩
        obtain ⟨d, hd, hcolon⟩ := hnext
        simp [parametersAndResult?, resultOf?_eq_none hd hcolon, hrest]
      · simp [parametersAndResult?, hc, hrest]

/-- The result is what stands behind the colon, without blanks. -/
theorem resultOf?_behindColon (gap : Blanks) (type : Option WrittenType) :
    resultOf? (gap.1 ++ behindColon type) = some (type.map fun t => t.tree.renderChars) := by
  have htrim : Text.trimStart (gap.1 ++ behindColon type) = behindColon type := by
    refine Text.trimStart_append gap.2 ?_
    cases type with
    | none => simp [behindColon]
    | some t => simp [behindColon]; decide
  rw [resultOf?, htrim]
  cases type with
  | none => rfl
  | some t =>
      obtain ⟨c, r, hc⟩ := List.exists_cons_of_ne_nil t.text_ne_nil
      simp only [behindColon, hc, Option.map_some, ← t.spells]

/-- **Parameters and result are told apart.** -/
theorem parametersAndResult?_listText (d : Written) :
    parametersAndResult? d.listText = some (d.parametersText, d.returns.map fun t => t.tree.renderChars) :=
  parametersAndResult?_append (kept_parametersText d) (resultOf?_behindColon d.gap d.returns)

/-- Neither has an equals sign or a slash. -/
theorem not_mem_listText {c : Char} (h : c ∈ ['=', '/']) (d : Written) : c ∉ d.listText := by
  have hparen : c ≠ ')' := by
    rintro rfl
    revert h
    decide
  have hgap : c ∉ d.gap.1 := by
    intro hc
    have hblank := not_isBlank_of_mem_marks c (List.mem_append_right [',', '(', '{', '[', ')', '}', ']', ':'] h)
    rw [d.gap.2 c hc] at hblank
    cases hblank
  simp only [Written.listText, List.mem_append, List.mem_cons, not_or]
  exact ⟨not_mem_parametersText h d, hparen, hgap, not_mem_behindColon h d.returns⟩

end SophiaBind.Catalog
