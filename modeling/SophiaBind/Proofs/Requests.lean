/-
**What a request does.**

A request of the node client is one exchange, or several if it can be tried again and the services were
disrupted in a way that may pass. What the caller gets depends on the last exchange alone. A request that
changes something is never tried again.

Main definitions:

* `Passes` — a disruption after which a request may be tried again,
* `NodeClient.Tries` — the exchanges of one request, with the outcome of the last,
* `NodeClient.conclusion` — what the caller of a request gets for an outcome,
* `Outcome.Gives` — an outcome that is a usable answer, with its JSON value,
* `Outcome.status?` — the status of the response, if there was one,
* `NodeClient.Silent` — a dialogue that sends nothing.

Main results:

* `NodeClient.request_runs` — **a request tries, and its result is the conclusion from the last outcome**,
* `NodeClient.conclusion_eq_ok_iff` — a request succeeds on usable answers only,
* `NodeClient.request_in_world` — **a request in a world gives a usable answer or fails in one way only**,
* `NodeClient.Tries.length_le` — at most three exchanges, and exactly one if the method is not `GET`,
* `NodeClient.item_runs`, `NodeClient.get_runs`, `NodeClient.toInt_runs` — reading answers,
* `NodeClient.asked_runs` — **a request whose answer is read**.
-/

import SophiaBind.NodeClient
import SophiaBind.Proofs.Retries

namespace SophiaBind

open Dialogue (Runs)

/-- A disruption after which a request may be tried again. -/
def Outcome.Passes (o : Outcome) : Prop :=
  ∃ kind message, o = .error (kind, message) ∧ kind.isTransport = true

/-- A usable answer: a response that is no error, with its JSON value. -/
def Outcome.Gives (o : Outcome) (j : Json) : Prop :=
  ∃ response : Response, o = .ok response ∧ response.status < 400 ∧ response.json = .ok j

/-- The status of the response, if there was one. -/
def Outcome.status? : Outcome → Option Int
  | .ok response => some response.status
  | .error _ => none

namespace NodeClient

/-! ### Trying -/

/-- How often a request of a method is tried again. -/
def retries (method : String) : Nat :=
  if method = "GET" then 2 else 0

/-- The exchanges of one request: it is sent again after each disruption that may pass, as often as its
method allows, and `o` is the outcome of the last time. -/
def Tries (r : Request) (o : Outcome) (es : List Exchange) : Prop :=
  ∃ failed : List Outcome, es = failed.map (r, ·) ++ [(r, o)] ∧ failed.length ≤ retries r.method ∧
    ∀ p ∈ failed, p.Passes

theorem Tries.length_le {r : Request} {o : Outcome} {es : List Exchange} (h : Tries r o es) :
    es.length ≤ retries r.method + 1 := by
  obtain ⟨failed, rfl, hlen, -⟩ := h
  simpa using hlen

theorem Tries.request_eq {r : Request} {o : Outcome} {es : List Exchange} (h : Tries r o es) {x : Exchange}
    (hx : x ∈ es) : x.1 = r := by
  obtain ⟨failed, rfl, -, -⟩ := h
  simp only [List.mem_append, List.mem_map, List.mem_singleton] at hx
  rcases hx with ⟨p, -, rfl⟩ | rfl <;> rfl

theorem Tries.mem {r : Request} {o : Outcome} {es : List Exchange} (h : Tries r o es) : (r, o) ∈ es := by
  obtain ⟨failed, rfl, -, -⟩ := h
  simp

/-- A request that may change something is sent once. -/
theorem Tries.eq_singleton {r : Request} {o : Outcome} {es : List Exchange} (h : Tries r o es)
    (hm : r.method = "POST") : es = [(r, o)] := by
  obtain ⟨failed, rfl, hlen, -⟩ := h
  rw [retries, hm, if_neg (by decide), Nat.le_zero, List.length_eq_zero_iff] at hlen
  rw [hlen]
  rfl

/-- What sending a request once gives. -/
def received : Outcome → Except Fault Response
  | .ok response => .ok response
  | .error (kind, message) => .error (.disrupted kind message)

theorem received_eq_ok {o : Outcome} {response : Response} (h : .ok response = received o) : o = .ok response := by
  match o with
  | .ok _ => cases h; rfl
  | .error (_, _) => cases h

theorem received_eq_error {o : Outcome} {f : Fault} (h : .error f = received o) :
    ∃ kind message, o = .error (kind, message) ∧ f = .disrupted kind message := by
  match o with
  | .ok _ => cases h
  | .error (kind, message) => cases h; exact ⟨kind, message, rfl, rfl⟩

theorem sendOnce_runs {r : Request} {es : List Exchange} {e : Except Fault Response}
    (h : Runs (sendOnce r) es e) : ∃ o, es = [(r, o)] ∧ e = received o := by
  cases h with
  | @ask _ _ o _ _ h =>
      refine ⟨o, ?_⟩
      match o with
      | .ok response => obtain ⟨rfl, rfl⟩ := h.done_inv; exact ⟨rfl, rfl⟩
      | .error (kind, message) => obtain ⟨rfl, rfl⟩ := h.fail_inv; exact ⟨rfl, rfl⟩

/-- **Trying again**: the request is sent at most `left` times more, each time after a disruption that may
pass, and the outcome of the last time counts, which is no such disruption unless all times are used up. -/
theorem runFrom_runs {method : String} {r : Request} {i left : Nat} {es : List Exchange} {e : Except Fault Response}
    (hi : i + left ≤ 1024) (h : Runs (Retry.runFrom (policy method) (fun _ => sendOnce r) i left) es e) :
    ∃ (failed : List Outcome) (o : Outcome), es = failed.map (r, ·) ++ [(r, o)] ∧ failed.length ≤ left ∧
      (∀ p ∈ failed, p.Passes) ∧ (o.Passes → failed.length = left) ∧ e = received o := by
  induction left generalizing i es with
  | zero =>
      obtain ⟨o, rfl, rfl⟩ := sendOnce_runs h
      exact ⟨[], o, rfl, Nat.le_refl 0, by simp, fun _ => rfl, rfl⟩
  | succ left ih =>
      rcases h.recover_inv with ⟨response, rfl, hs⟩ | ⟨fault, es₁, es₂, rfl, hs, hh⟩
      · obtain ⟨o, rfl, ho⟩ := sendOnce_runs hs
        refine ⟨[], o, rfl, Nat.zero_le _, by simp, ?_, ho⟩
        rintro ⟨kind, message, rfl, -⟩
        cases ho
      · obtain ⟨o, rfl, ho⟩ := sendOnce_runs hs
        obtain ⟨kind, message, rfl, rfl⟩ := received_eq_error ho
        dsimp only at hh
        split at hh
        · next hretry =>
            -- only a disruption is tried again, so that the first outcome was one that may pass
            have hpass : Outcome.Passes (.error (kind, message)) := ⟨kind, message, rfl, hretry⟩
            have htold : ¬Retry.overflows i = true := fun hover => by
              have hbeyond := Retry.overflows_iff.1 hover
              omega
            rw [if_neg htold] at hh
            cases hh with
            | draw hh =>
                cases hh with
                | tell hh =>
                    cases hh with
                    | tell hh =>
                        obtain ⟨failed, o', rfl, hlen, hall, hleft, he⟩ := ih (by omega) hh
                        refine ⟨.error (kind, message) :: failed, o', rfl, Nat.succ_le_succ hlen, ?_, fun ho => congrArg (· + 1) (hleft ho),
                          he⟩
                        intro p hp
                        rcases List.mem_cons.1 hp with rfl | hp
                        · exact hpass
                        · exact hall p hp
        · next hretry =>
            obtain ⟨rfl, rfl⟩ := hh.fail_inv
            refine ⟨[], .error (kind, message), by simp, Nat.zero_le _, by simp, ?_, ho⟩
            rintro ⟨_, _, hsame, hpass⟩
            cases hsame
            exact absurd hpass hretry

/-! ### Requests -/

/-- What the caller of a request gets for the outcome of the last time that it was sent. -/
def conclusion (r : Request) : Outcome → Except Fault Json
  | .ok response =>
    if 400 ≤ response.status then .error (.api r.url response.reason (some response.status))
    else match response.json with
      | .ok j => .ok j
      | .error e => .error (.api r.url ("invalid JSON response: " ++ e.message) (some response.status))
  | .error (kind, message) =>
    .error (.api r.url ((if kind.isTimeout then "timeout: " else "cannot connect: ") ++ message) none)

theorem conclusion_eq_ok_iff {r : Request} {o : Outcome} {j : Json} : conclusion r o = .ok j ↔ o.Gives j := by
  match o with
  | .error (kind, message) =>
      simp [conclusion, Outcome.Gives]
  | .ok response =>
      simp only [conclusion, Outcome.Gives, Except.ok.injEq]
      constructor
      · intro h
        split at h
        · cases h
        · next hlt =>
            split at h
            · next k hk => cases h; exact ⟨response, rfl, by omega, hk⟩
            · cases h
      · rintro ⟨response', rfl, hlt, hj⟩
        rw [if_neg (by omega), hj]

theorem answer_runs {r : Request} {response : Response} {es : List Exchange} {e : Except Fault Json}
    (h : Runs (answer r.url response) es e) : es = [] ∧ e = conclusion r (.ok response) := by
  unfold answer at h
  unfold conclusion
  dsimp only
  by_cases hs : 400 ≤ response.status
  · rw [if_pos hs] at h ⊢
    exact h.fail_inv
  · rw [if_neg hs] at h ⊢
    cases hj : response.json with
    | ok j =>
        rw [hj] at h
        exact h.done_inv
    | error f =>
        rw [hj] at h
        exact h.fail_inv

theorem disrupted_runs {r : Request} {kind : Disruption} {message : String} {es : List Exchange}
    {e : Except Fault Response} (h : Runs (disrupted r (.disrupted kind message)) es e) :
    es = [] ∧ e = .error (.api r.url ((if kind.isTimeout then "timeout: " else "cannot connect: ") ++ message)
      none) := by
  simp only [disrupted] at h
  split at h
  · next hk => cases h with | tell h => rw [if_pos hk]; exact h.fail_inv
  · next hk => cases h with | tell h => rw [if_neg hk]; exact h.fail_inv

/-- The times that a request is sent, and what is received the last time. -/
theorem tries_runs {r : Request} {es : List Exchange} {e : Except Fault Response}
    (h : Runs (Retry.run (policy r.method) fun _ => sendOnce r) es e) :
    ∃ o, Tries r o es ∧ (o.Passes → es.length = retries r.method + 1) ∧ e = received o := by
  have hattempts : (policy r.method).attempts.toNat - 1 = retries r.method := by
    unfold policy retries
    split <;> rfl
  have hfew : 0 + retries r.method ≤ 1024 := by
    unfold retries
    split <;> decide
  rw [Retry.run, hattempts] at h
  obtain ⟨failed, o, rfl, hlen, hall, hleft, he⟩ := runFrom_runs hfew h
  exact ⟨o, ⟨failed, rfl, hlen, hall⟩, fun ho => by simpa using hleft ho, he⟩

/-- **A request tries, and its result is the conclusion from the last outcome**, which is no disruption that may
pass unless all times are used up. -/
theorem request_runs {method url : String} {body : Option Json} {es : List Exchange} {e : Except Fault Json}
    (h : Runs (request method url body) es e) :
    ∃ o, Tries { method, url, body } o es ∧ (o.Passes → es.length = retries method + 1) ∧
      e = conclusion { method, url, body } o := by
  rcases h.bind_inv with ⟨fault, rfl, hr⟩ | ⟨response, es₁, es₂, rfl, hr, ha⟩
  -- a failed request was disrupted the last time, and that is reported
  · rcases hr.recover_inv with ⟨response, hcontra, -⟩ | ⟨fault', es₁, es₂, rfl, hs, hd⟩
    · cases hcontra
    · obtain ⟨o, ht, hlast, ho⟩ := tries_runs (r := { method, url, body }) hs
      obtain ⟨kind, message, rfl, rfl⟩ := received_eq_error ho
      obtain ⟨rfl, he⟩ := disrupted_runs hd
      cases he
      rw [List.append_nil]
      exact ⟨_, ht, hlast, rfl⟩
  -- any other was answered, and the answer is read
  · rcases hr.recover_inv with ⟨response', hok, hs⟩ | ⟨fault', es₃, es₄, rfl, hs, hd⟩
    · cases hok
      obtain ⟨o, ht, hlast, ho⟩ := tries_runs (r := { method, url, body }) hs
      obtain rfl := received_eq_ok ho
      obtain ⟨rfl, he⟩ := answer_runs (r := { method, url, body }) ha
      rw [List.append_nil]
      exact ⟨_, ht, hlast, he⟩
    · obtain ⟨o, -, -, ho⟩ := tries_runs (r := { method, url, body }) hs
      obtain ⟨kind, message, -, rfl⟩ := received_eq_error ho
      obtain ⟨-, he⟩ := disrupted_runs hd
      cases he

/-! ### Requests in a world -/

/-- What fails has the address and the status of the response, if there was one. -/
theorem conclusion_eq_error {r : Request} {o : Outcome} {f : Fault} (h : conclusion r o = .error f) :
    ∃ reason, f = .api r.url reason o.status? := by
  match o with
  | .error (kind, message) =>
      cases h
      exact ⟨_, rfl⟩
  | .ok response =>
      simp only [conclusion] at h
      split at h
      · cases h
        exact ⟨_, rfl⟩
      · split at h
        · cases h
        · cases h
          exact ⟨_, rfl⟩

/-- A member that must be there is read from an object that has it. -/
theorem item_runs {j : Json} {name : String} {es : List Exchange} {e : Except Fault Json}
    (h : Runs (item j name) es e) : es = [] ∧ ∀ v, e = .ok v → j.member? name = some v := by
  match j with
  | .object members =>
      simp only [item] at h
      split at h
      · next v hv =>
          obtain ⟨rfl, rfl⟩ := h.done_inv
          refine ⟨rfl, fun v' hv' => ?_⟩
          cases hv'
          exact hv
      · obtain ⟨rfl, rfl⟩ := h.fail_inv
        exact ⟨rfl, fun v' hv' => by cases hv'⟩
  | .null | .bool _ | .int _ | .float _ | .text _ | .broken _ | .array _ =>
      obtain ⟨rfl, rfl⟩ := h.fail_inv
      exact ⟨rfl, fun v hv => by cases hv⟩

/-- A member with a default is read from an object. -/
theorem get_runs {j default : Json} {name : String} {es : List Exchange} {e : Except Fault Json}
    (h : Runs (get j name default) es e) :
    es = [] ∧ ∀ v, e = .ok v → ∃ members, j = .object members ∧ v = (Json.lookup? members name).getD default := by
  match j with
  | .object members =>
      obtain ⟨rfl, rfl⟩ := h.done_inv
      refine ⟨rfl, fun v hv => ⟨members, rfl, ?_⟩⟩
      cases hv
      rfl
  | .null | .bool _ | .int _ | .float _ | .text _ | .broken _ | .array _ =>
      obtain ⟨rfl, rfl⟩ := h.fail_inv
      exact ⟨rfl, fun v hv => by cases hv⟩

theorem toInt_runs {j : Json} {es : List Exchange} {e : Except Fault Int} (h : Runs (toInt j) es e) :
    es = [] ∧ e = (Value.ofJson j).toInt :=
  h.ofExcept_inv

/-- A dialogue that sends nothing. -/
def Silent {α : Type} (d : Dialogue α) : Prop :=
  ∀ es e, Runs d es e → es = []

theorem silent_item (j : Json) (name : String) : Silent (item j name) :=
  fun _ _ h => (item_runs h).1

theorem silent_get (j default : Json) (name : String) : Silent (get j name default) :=
  fun _ _ h => (get_runs h).1

theorem silent_toInt (j : Json) : Silent (toInt j) :=
  fun _ _ h => (toInt_runs h).1

theorem silent_pure {α : Type} (a : α) : Silent (pure a : Dialogue α) :=
  fun _ _ h => h.done_inv.1

theorem Silent.bind {α β : Type} {d : Dialogue α} {f : α → Dialogue β} (hd : Silent d) (hf : ∀ a, Silent (f a)) :
    Silent (d >>= f) := by
  intro es e h
  rcases h.bind_inv with ⟨fault, rfl, h₁⟩ | ⟨a, es₁, es₂, rfl, h₁, h₂⟩
  · exact hd es _ h₁
  · rw [hd es₁ _ h₁, hf a es₂ e h₂]
    rfl

/-- Behind a dialogue that sends nothing, all exchanges are those of what comes next. -/
theorem Silent.bind_inv {α β : Type} {d : Dialogue α} {f : α → Dialogue β} {es : List Exchange} {e : Except Fault β}
    (hd : Silent d) (h : Runs (d >>= f) es e) :
    (es = [] ∧ ∃ fault, e = .error fault) ∨ ∃ a, Runs d [] (.ok a) ∧ Runs (f a) es e := by
  rcases Runs.bind_inv h with ⟨fault, rfl, h₁⟩ | ⟨a, es₁, es₂, rfl, h₁, h₂⟩
  · exact .inl ⟨hd es _ h₁, fault, rfl⟩
  · obtain rfl := hd es₁ _ h₁
    exact .inr ⟨a, h₁, h₂⟩

/-- **A request whose answer is read**: what is read comes from a usable answer. -/
theorem asked_runs {α : Type} {method url : String} {body : Option Json} {f : Json → Dialogue α}
    {es : List Exchange} {e : Except Fault α} (hf : ∀ res, Silent (f res))
    (h : Runs (request method url body >>= f) es e) :
    ∃ o, Tries { method, url, body } o es ∧ ∀ a, e = .ok a → ∃ res, o.Gives res ∧ Runs (f res) [] (.ok a) := by
  rcases h.bind_inv with ⟨fault, rfl, h₁⟩ | ⟨res, es₁, es₂, rfl, h₁, h₂⟩
  · obtain ⟨o, ho, -, -⟩ := request_runs h₁
    exact ⟨o, ho, fun a ha => by cases ha⟩
  · obtain ⟨o, ho, -, hres⟩ := request_runs h₁
    obtain rfl := hf res es₂ e h₂
    rw [List.append_nil]
    refine ⟨o, ho, fun a ha => ⟨res, conclusion_eq_ok_iff.1 hres.symm, ?_⟩⟩
    rw [← ha]
    exact h₂

end NodeClient

end SophiaBind
