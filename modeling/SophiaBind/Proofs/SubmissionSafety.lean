/-
**What a submission can and cannot do.**

A transaction that is posted twice, or one that is taken for mined before it is, costs money. Whatever the
services answer and whenever they are disrupted, no endpoint is posted to twice, nothing is posted that was
not prepared for, and success is only reported for a transaction that was seen in a block.

Main definitions:

* `NodeClient.posts` — the addresses that a run posts to, in order,
* `NodeClient.exchangesWith` — the exchanges with one address,
* `NodeClient.Safe` — what holds of all exchanges of a submission,
* `NodeClient.Confirmed` — a posted transaction that was seen in a block.

Main results:

* `NodeClient.Course.posts_sublist` — **a run posts for call data, for a transaction, and the transaction**, as
  far as it comes,
* `NodeClient.Course.safe`, `NodeClient.Course.confirmed`,
* `NodeClient.deploy_call_safe` — **deployments and calls are safe against all services**.
-/

import Mathlib.Data.List.Basic
import SophiaBind.Proofs.Submission

namespace SophiaBind

open Dialogue (Runs)

namespace NodeClient

variable (c : NodeClient) (s : Submission) {α : Type}

/-! ### Addresses -/

/-- The addresses that exchanges posted to, in order. -/
def posts (es : List Exchange) : List String :=
  es.filterMap fun x => if x.1.method = "POST" then some x.1.url else none

/-- The exchanges with an address by a method. -/
def exchangesWith (method url : String) (es : List Exchange) : List Exchange :=
  es.filter fun x => x.1.method = method ∧ x.1.url = url

theorem posts_cons {r : Request} (hr : r.method = "POST") (o : Outcome) (es : List Exchange) :
    posts ((r, o) :: es) = r.url :: posts es :=
  List.filterMap_cons_some (if_pos hr)

@[simp] theorem posts_append (es fs : List Exchange) : posts (es ++ fs) = posts es ++ posts fs :=
  List.filterMap_append

@[simp] theorem exchangesWith_append (method url : String) (es fs : List Exchange) :
    exchangesWith method url (es ++ fs) = exchangesWith method url es ++ exchangesWith method url fs :=
  List.filter_append ..

theorem mem_posts {es : List Exchange} {r : Request} {o : Outcome} (h : (r, o) ∈ es) (hr : r.method = "POST") :
    r.url ∈ posts es :=
  List.mem_filterMap.2 ⟨(r, o), h, if_pos hr⟩

theorem exchangesWith_eq_self {r : Request} {es : List Exchange} (h : ∀ x ∈ es, x.1 = r) :
    exchangesWith r.method r.url es = es := by
  refine List.filter_eq_self.2 fun x hx => ?_
  rw [h x hx]
  simp

theorem exchangesWith_of_url_ne {r : Request} {es : List Exchange} (h : ∀ x ∈ es, x.1 = r) {url : String}
    (hne : r.url ≠ url) (method : String) : exchangesWith method url es = [] := by
  refine List.filter_eq_nil_iff.2 fun x hx => ?_
  rw [h x hx]
  simp [hne]

theorem exchangesWith_of_post {r : Request} {es : List Exchange} (h : ∀ x ∈ es, x.1 = r)
    (hr : r.method = "POST") (url : String) : exchangesWith "GET" url es = [] := by
  refine List.filter_eq_nil_iff.2 fun x hx => ?_
  rw [h x hx, hr]
  simp

theorem Asks.posts_of_get {r : Request} {es : List Exchange} (h : Asks r es) (hr : r.method = "GET") :
    posts es = [] := by
  refine List.filterMap_eq_nil_iff.2 fun x hx => ?_
  rw [h.request_eq hx, hr]
  rfl

theorem Asks.posts_sublist {r : Request} {es : List Exchange} (h : Asks r es) (hr : r.method = "POST") :
    (posts es).Sublist [r.url] := by
  rcases h with rfl | ⟨o, h⟩
  · exact List.nil_sublist _
  · rw [h.eq_singleton hr, posts_cons hr]
    exact List.Sublist.refl _

theorem Looks.request_eq {c : NodeClient} {hash : Json} {n : Nat} {es : List Exchange} (h : c.Looks hash n es)
    {x : Exchange} (hx : x ∈ es) : x.1 = c.lookRequest hash := by
  obtain ⟨looks, rfl, -, hlooks⟩ := h
  obtain ⟨look, hlook, hx⟩ := List.mem_flatten.1 hx
  obtain ⟨o, ho⟩ := hlooks look hlook
  exact ho.request_eq hx

theorem Looks.posts {c : NodeClient} {hash : Json} {n : Nat} {es : List Exchange} (h : c.Looks hash n es) :
    NodeClient.posts es = [] := by
  refine List.filterMap_eq_nil_iff.2 fun x hx => ?_
  rw [h.request_eq hx]
  rfl

/-- Addresses of the public interface differ as their paths do. -/
theorem nodeUrl_ne {p q : String} (h : p ≠ q) : c.nodeUrl p ≠ c.nodeUrl q := by
  intro he
  refine h ?_
  simpa [nodeUrl] using he

/-- Addresses differ if their last characters do. -/
theorem append_ne_append {a b p q : String} {x y : Char} (hx : p.toList.getLast? = some x)
    (hy : q.toList.getLast? = some y) (hne : x ≠ y) : a ++ p ≠ b ++ q := by
  intro he
  have hlast := congrArg (fun u : String => u.toList.getLast?) he
  simp [List.getLast?_append, hx, hy] at hlast
  exact hne hlast

/-- The endpoints that a submission posts to, in order. -/
def endpoints : List String :=
  [c.compilerUrl "/encode-calldata", c.internalUrl s.path, c.nodeUrl "/transactions"]

/-- No two of the endpoints have the same address, whatever the addresses of the services. -/
theorem nodup_endpoints : (c.endpoints s).Nodup := by
  -- the addresses differ in their last characters: `a`, then `e` or `l`, then `s`
  have hencode : "/encode-calldata".toList.getLast? = some 'a' := by decide
  have hpost : "/v2/transactions".toList.getLast? = some 's' := by decide
  have hbuild : ∃ x, ("/v2" ++ s.path).toList.getLast? = some x ∧ x ≠ 'a' ∧ x ≠ 's' := by
    unfold Submission.path
    split
    · exact ⟨'e', by decide, by decide, by decide⟩
    · exact ⟨'l', by decide, by decide, by decide⟩
  obtain ⟨x, hx, hxa, hxs⟩ := hbuild
  simp only [endpoints, compilerUrl, internalUrl, nodeUrl, String.append_assoc, List.nodup_cons, List.mem_cons,
    List.not_mem_nil, or_false, not_or, not_false_eq_true, List.nodup_nil, and_true]
  exact ⟨⟨append_ne_append hencode hx hxa.symm, append_ne_append hencode hpost (by decide)⟩,
    append_ne_append hx hpost hxs⟩

variable {c s}

/-! ### Posting at most once -/

theorem Preparing.posts_sublist {es : List Exchange} (h : c.Preparing s es) :
    (posts es).Sublist [c.compilerUrl "/encode-calldata", c.internalUrl s.path] := by
  obtain ⟨calldata, ttl, nonce, encoding, height, account, building, rfl, hencoding, hheight, haccount,
    hbuilding⟩ := h
  rw [posts_append, posts_append, posts_append, hheight.posts_of_get rfl, haccount.posts_of_get rfl,
    List.append_nil, List.append_nil]
  exact (hencoding.posts_sublist rfl).append (hbuilding.posts_sublist rfl)

/-- What is done behind a mined transaction asks for nothing but its info. -/
def AsksInfo (c : NodeClient) (finish : Json → Json → Json → Dialogue α) : Prop :=
  ∀ res hash mined es e, Runs (finish res hash mined) es e → Asks (c.infoRequest hash) es

section Course

variable {finish : Json → Json → Json → Dialogue α} (hfinish : c.AsksInfo finish) {es : List Exchange}
  {e : Except Fault α}

include hfinish in
/-- **A run posts for call data, for a transaction, and the transaction**, as far as it comes. -/
theorem Course.posts_sublist (h : Course c s finish es e) : (posts es).Sublist (c.endpoints s) := by
  cases h with
  | unposted hbefore => exact hbefore.posts_sublist.trans (List.sublist_append_left _ [c.nodeUrl "/transactions"])
  | unhashed hbefore _ =>
      rw [posts_append, posts_cons rfl]
      exact hbefore.preparing.posts_sublist.append (List.Sublist.refl _)
  | unmined hbefore _ _ hlooks =>
      rw [posts_append, posts_cons rfl, hlooks.posts]
      exact hbefore.preparing.posts_sublist.append (List.Sublist.refl _)
  | mined hbefore _ _ hlooks _ hlast =>
      rw [posts_append, posts_cons rfl, posts_append, hlooks.posts, (hfinish _ _ _ _ _ hlast).posts_of_get rfl]
      exact hbefore.preparing.posts_sublist.append (List.Sublist.refl _)

end Course

/-! ### Posting what was prepared -/

/-- What is posted to the endpoint for transactions carries the transaction that everything before it has prepared,
with the client's signature. -/
def PostsPrepared (c : NodeClient) (s : Submission) (es : List Exchange) : Prop :=
  ∀ before r o after, es = before ++ (r, o) :: after → r.method = "POST" → r.url = c.nodeUrl "/transactions" →
    ∃ payload seed, c.Prepared s payload before ∧
      Transaction.seedOfSecret c.keypair.secretKey = .ok seed ∧ r = c.postRequest (c.signed seed payload) ∧
        c.CarriesSigned seed payload r

/-- No transaction is posted while it is prepared. -/
theorem Preparing.not_mem {es : List Exchange} (h : c.Preparing s es) {r : Request} {o : Outcome}
    (hm : r.method = "POST") (hu : r.url = c.nodeUrl "/transactions") : (r, o) ∉ es := by
  intro hmem
  have hnodup : ([c.compilerUrl "/encode-calldata", c.internalUrl s.path] ++ [c.nodeUrl "/transactions"]).Nodup :=
    c.nodup_endpoints s
  have hposted := h.posts_sublist.subset (mem_posts hmem hm)
  rw [hu] at hposted
  exact (List.nodup_append.1 hnodup).2.2 _ hposted _ (List.mem_singleton_self _) rfl

/-- A run that posts one transaction has prepared it. -/
theorem postsPrepared_of_prepared {before rest : List Exchange} {payload seed : Bytes} {o : Outcome}
    (hbefore : c.Prepared s payload before) (hseed : Transaction.seedOfSecret c.keypair.secretKey = .ok seed)
    (hrest : posts rest = []) :
    c.PostsPrepared s (before ++ (c.postRequest (c.signed seed payload), o) :: rest) := by
  intro before' r o' after he hm hu
  -- a post to that endpoint is neither before this one nor behind it, so that the exchanges split here
  have hnot : (r, o') ∉ rest := by
    intro hmem
    have hposted := mem_posts hmem hm
    rw [hrest] at hposted
    cases hposted
  obtain ⟨rfl, hpost, -⟩ := (List.append_cons_inj_of_notMem (hbefore.preparing.not_mem hm hu) hnot).1 he
  cases hpost
  exact ⟨payload, seed, hbefore, hseed, rfl, c.carriesSigned_postRequest seed payload⟩

section Course

variable {finish : Json → Json → Json → Dialogue α} (hfinish : c.AsksInfo finish) {es : List Exchange}
  {e : Except Fault α}

include hfinish in
/-- **Nothing is posted that was not prepared for.** -/
theorem Course.postsPrepared (h : Course c s finish es e) : c.PostsPrepared s es := by
  cases h with
  | unposted hbefore =>
      intro before r o after he hm hu
      have hmem : (r, o) ∈ es := by
        rw [he]
        exact List.mem_append_right before List.mem_cons_self
      exact absurd hmem (hbefore.not_mem hm hu)
  | unhashed hbefore hseed => exact postsPrepared_of_prepared hbefore hseed rfl
  | unmined hbefore hseed _ hlooks => exact postsPrepared_of_prepared hbefore hseed hlooks.posts
  | mined hbefore hseed _ hlooks _ hlast =>
      refine postsPrepared_of_prepared hbefore hseed ?_
      rw [posts_append, hlooks.posts, (hfinish _ _ _ _ _ hlast).posts_of_get rfl]
      rfl

end Course

/-! ### Looking at most so often -/

/-- Nothing is looked for while a transaction is prepared. -/
theorem Preparing.exchangesWith {es : List Exchange} (h : c.Preparing s es) (hash : Json) :
    exchangesWith "GET" (c.transactionUrl hash) es = [] := by
  obtain ⟨calldata, ttl, nonce, encoding, height, account, building, rfl, hencoding, hheight, haccount,
    hbuilding⟩ := h
  have hne : ∀ p : String, p.toList[1]? ≠ some 't' → c.nodeUrl p ≠ c.transactionUrl hash := by
    intro p hp
    refine c.nodeUrl_ne ?_
    rintro rfl
    exact hp (by simp)
  simp only [exchangesWith_append]
  rw [exchangesWith_of_post (fun x => hencoding.request_eq) rfl,
    exchangesWith_of_url_ne (fun x => hheight.request_eq) (hne _ (by decide)),
    exchangesWith_of_url_ne (fun x => haccount.request_eq) (hne _ (by simp)),
    exchangesWith_of_post (fun x => hbuilding.request_eq) rfl]
  rfl

/-- Looks for one transaction are looks for another of the same address, and none for any other. -/
theorem Looks.exchangesWith {hash : Json} {n : Nat} {es : List Exchange} (h : c.Looks hash n es) (other : Json) :
    c.Looks other n (exchangesWith "GET" (c.transactionUrl other) es) := by
  by_cases hu : c.transactionUrl hash = c.transactionUrl other
  · have hself := exchangesWith_eq_self fun x => h.request_eq (x := x)
    rw [show NodeClient.exchangesWith "GET" (c.transactionUrl other) es = es by rw [← hu]; exact hself]
    obtain ⟨looks, rfl, hlen, hlooks⟩ := h
    refine ⟨looks, rfl, hlen, ?_⟩
    rw [lookRequest, ← hu]
    exact hlooks
  · rw [exchangesWith_of_url_ne (fun x => h.request_eq) hu]
    exact .nil other n

/-- A transaction is found by looking. -/
theorem MinedIn.ne_nil {hash mined : Json} {es : List Exchange} (h : c.MinedIn hash mined es) : es ≠ [] := by
  obtain ⟨o, -, -, hmem, -⟩ := h
  exact List.ne_nil_of_mem hmem

theorem Looks.pos {hash : Json} {n : Nat} {es : List Exchange} (h : c.Looks hash n es) (hne : es ≠ []) :
    0 < n := by
  obtain ⟨looks, rfl, hlen, -⟩ := h
  cases looks with
  | nil => exact absurd rfl hne
  | cons look looks => exact Nat.lt_of_lt_of_le (Nat.succ_pos _) hlen

/-- Asking for the info is one look at the most, where its address is that of another transaction. -/
theorem Asks.looks {hash posted : Json} {n : Nat} {es : List Exchange} (h : Asks (c.infoRequest posted) es)
    (hn : 0 < n) : c.Looks hash n (NodeClient.exchangesWith "GET" (c.transactionUrl hash) es) := by
  by_cases hu : c.transactionUrl posted ++ "/info" = c.transactionUrl hash
  · have hself := exchangesWith_eq_self fun x => h.request_eq (x := x)
    rw [show NodeClient.exchangesWith "GET" (c.transactionUrl hash) es = es by rw [← hu]; exact hself]
    rcases h with rfl | ⟨o, ho⟩
    · exact .nil hash n
    · refine ⟨[es], by simp, hn, ?_⟩
      rw [lookRequest, ← hu]
      simpa using ⟨o, ho⟩
  · rw [exchangesWith_of_url_ne (fun x => h.request_eq) hu]
    exact .nil hash n

section Course

variable {finish : Json → Json → Json → Dialogue α} (hfinish : c.AsksInfo finish) {es : List Exchange}
  {e : Except Fault α}

include hfinish in
/-- **No transaction is looked for more often than the client polls.** -/
theorem Course.looks (h : Course c s finish es e) (hash : Json) :
    c.Looks hash c.pollAttempts.toNat (exchangesWith "GET" (c.transactionUrl hash) es) := by
  cases h with
  | unposted hbefore =>
      rw [hbefore.exchangesWith]
      exact .nil hash _
  | unhashed hbefore _ =>
      rw [exchangesWith_append, hbefore.preparing.exchangesWith]
      exact .nil hash _
  | unmined hbefore _ _ hlooks =>
      rw [exchangesWith_append, hbefore.preparing.exchangesWith]
      exact hlooks.exchangesWith hash
  | @mined _ _ _ _ posted _ _ _ last _ hbefore _ _ hlooks hmined hlast =>
      have hinfo := hfinish _ _ _ _ _ hlast
      rw [exchangesWith_append, hbefore.preparing.exchangesWith]
      change c.Looks hash _ (exchangesWith "GET" (c.transactionUrl hash) (_ ++ last))
      rw [exchangesWith_append]
      by_cases hu : c.transactionUrl posted = c.transactionUrl hash
      -- the info lies at an address behind that of its transaction, which is never the same
      · have hne : c.transactionUrl posted ++ "/info" ≠ c.transactionUrl hash := by
          rw [← hu]
          intro he
          have := congrArg String.length he
          simp at this
        rw [exchangesWith_of_url_ne (fun x => hinfo.request_eq) hne, List.append_nil]
        exact hlooks.exchangesWith hash
      -- it may be the address of a transaction with another hash, and then counts as a look for that one
      · rw [exchangesWith_of_url_ne (fun x => hlooks.request_eq) hu, List.nil_append]
        exact hinfo.looks (hlooks.pos hmined.ne_nil)

end Course

/-! ### Deployments and calls -/

/-- What holds of all exchanges of a submission. -/
structure Safe (c : NodeClient) (s : Submission) (es : List Exchange) : Prop where
  /-- No endpoint is posted to twice. -/
  nodup_posts : (posts es).Nodup
  /-- Nothing is posted that was not prepared for. -/
  postsPrepared : c.PostsPrepared s es
  /-- No transaction is looked for more often than the client polls. -/
  looks : ∀ hash, c.Looks hash c.pollAttempts.toNat (exchangesWith "GET" (c.transactionUrl hash) es)

/-- A prepared transaction was posted with the client's signature, is known by a hash, and was then seen in a block. -/
def Confirmed (c : NodeClient) (s : Submission) (hash : Json) (es : List Exchange) : Prop :=
  ∃ before payload seed o after mined, es = before ++ (c.postRequest (c.signed seed payload), o) :: after ∧
    c.Prepared s payload before ∧ c.CarriesSigned seed payload (c.postRequest (c.signed seed payload)) ∧
      Hashed (c.signed seed payload) o hash ∧ c.MinedIn hash mined after

theorem Course.safe {finish : Json → Json → Json → Dialogue α} (hfinish : c.AsksInfo finish) {es : List Exchange}
    {e : Except Fault α} (h : Course c s finish es e) : c.Safe s es where
  nodup_posts := (h.posts_sublist hfinish).nodup (c.nodup_endpoints s)
  postsPrepared := h.postsPrepared hfinish
  looks := h.looks hfinish

/-- **A submission succeeds on a confirmed transaction only**, with what `finish` makes of it. -/
theorem Course.confirmed {finish : Json → Json → Json → Dialogue α} {es : List Exchange} {a : α}
    (h : Course c s finish es (.ok a)) :
    ∃ res hash mined last, c.Confirmed s hash es ∧ Runs (finish res hash mined) last (.ok a) ∧ last ⊆ es := by
  cases h with
  | @mined before payload seed o hash looks res mined last _ hbefore _ hhash _ hmined hlast =>
      obtain ⟨o', k, height, hmem, hrest⟩ := hmined
      refine ⟨res, hash, mined, last, ⟨before, payload, seed, o, looks ++ last, mined, rfl, hbefore,
        c.carriesSigned_postRequest seed payload, hhash, o', k, height, List.mem_append_left last hmem, hrest⟩, hlast, ?_⟩
      intro x hx
      exact List.mem_append_right before (List.mem_cons_of_mem _ (List.mem_append_right looks hx))

theorem asksInfo_deployed : c.AsksInfo c.deployed := by
  intro res hash mined es e h
  rw [(deployed_runs h).1]
  exact .nil

theorem asksInfo_called (r : CallRequest) : c.AsksInfo fun _ hash _ => c.called r hash :=
  fun _ _ _ _ _ h => (called_runs h).1

theorem WentWell.mono {hash : Json} {es fs : List Exchange} (h : c.WentWell hash es) (hsub : es ⊆ fs) :
    c.WentWell hash fs := by
  obtain ⟨o, members, info, hmem, hrest⟩ := h
  exact ⟨o, members, info, hsub hmem, hrest⟩

/-- **Deployments and calls are safe against all services.** Whatever the services answer, a deployment or call
posts to no endpoint twice, posts only what it prepared, and looks for a transaction as often as it may; it
succeeds only on a transaction that was seen in a block, and a call only if it went well. -/
theorem deploy_call_safe (c : NodeClient) (w : World) :
    (∀ (artifact : Artifact) (arguments : List String) (o : CallOptions), ∃ es,
      (App.converse (c.deploy artifact arguments o)).Exchanges w es ∧ c.Safe (c.creation artifact arguments o) es ∧
        ∀ handle, ((App.converse (c.deploy artifact arguments o)).runIn w).1 = .ok handle →
          c.Confirmed (c.creation artifact arguments o) handle.transaction es) ∧
    ∀ r : CallRequest, ∃ es, (App.converse (c.call r)).Exchanges w es ∧ c.Safe (c.invocation r) es ∧
      ∀ result, ((App.converse (c.call r)).runIn w).1 = .ok result →
        ∃ hash, result.details.get "tx_hash" = .ok (some (Value.ofJson hash)) ∧
          c.Confirmed (c.invocation r) hash es ∧ c.WentWell hash es := by
  refine ⟨fun artifact arguments o => ?_, fun r => ?_⟩
  · obtain ⟨es, hruns, hes⟩ := App.converse_runs (c.deploy artifact arguments o) w
    refine ⟨es, hes, (submit_runs hruns).safe asksInfo_deployed, fun handle he => ?_⟩
    rw [he] at hruns
    obtain ⟨res, hash, mined, last, hconfirmed, hlast, -⟩ := (submit_runs hruns).confirmed
    rw [(deployed_runs hlast).2 handle rfl]
    exact hconfirmed
  · obtain ⟨es, hruns, hes⟩ := App.converse_runs (c.call r) w
    refine ⟨es, hes, (submit_runs hruns).safe (asksInfo_called r), fun result he => ?_⟩
    rw [he] at hruns
    obtain ⟨res, hash, mined, last, hconfirmed, hlast, hsub⟩ := (submit_runs hruns).confirmed
    obtain ⟨hwell, hhash⟩ := (called_runs hlast).2 result rfl
    exact ⟨hash, hhash, hconfirmed, hwell.mono hsub⟩

end NodeClient

end SophiaBind
