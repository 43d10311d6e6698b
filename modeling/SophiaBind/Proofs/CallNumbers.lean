/-
**Numbers of calls side by side.**

A call looks its account up and numbers its transaction by what it finds. The two are requests of their own, and
nothing reserves the number in between. So the number says how many transactions of the account were accepted when it
was looked up; and where none is accepted between two looks, both calls have the same number, of which a node takes
only one.

Main definitions:

* `NodeClient.CountingNode` — services that answer for an account by the transactions they accepted,
* `NodeClient.callsLog` — what calls exchange that run side by side,
* `NodeClient.LooksUp` — where a party looked its account up.

Main results:

* `NodeClient.Course.asks_account`, `NodeClient.not_mem_of_lookup` — a run looks its account up once,
* `NodeClient.submit_numbers` — **what is built has the number that was found**,
* `NodeClient.call_numbers` — **calls have the same number exactly if nothing was accepted between their looks**,
* `NodeClient.call_numbers_collide` — two calls that do.
-/

import SophiaBind.Proofs.InitCall
import SophiaBind.Proofs.Interleaving
import SophiaBind.Proofs.SubmissionSafety

namespace SophiaBind

open Dialogue (Runs)

/-- The request is to build a transaction of this number. -/
def Request.Carries (r : Request) (number : Int) : Prop :=
  r.body.bind (·.member? "nonce") = some (.int number)

theorem Request.Carries.unique {r : Request} {m n : Int} (hm : r.Carries m) (hn : r.Carries n) : m = n :=
  Json.int.inj (Option.some.inj (hm.symm.trans hn))

namespace NodeClient

variable {c : NodeClient} {s : Submission} {α : Type}

/-! ### Looking an account up -/

/-- A usable answer to a request that is tried is the last one. -/
theorem Tries.eq_nil_of_gives {r x : Request} {o p : Outcome} {es front back : List Exchange} {j : Json}
    (h : Tries r o es) (hes : es = front ++ (x, p) :: back) (hgives : p.Gives j) : back = [] := by
  obtain ⟨failed, rfl, -, hpasses⟩ := h
  rcases List.eq_nil_or_concat back with rfl | ⟨back, y, rfl⟩
  · rfl
  · rw [List.concat_eq_append, ← List.cons_append, ← List.append_assoc] at hes
    have hmem : (x, p) ∈ failed.map (r, ·) := by
      rw [(List.append_inj' hes rfl).1]
      simp
    obtain ⟨q, hq, heq⟩ := List.mem_map.1 hmem
    cases heq
    -- what is tried again was a disruption
    obtain ⟨kind, message, rfl, -⟩ := hpasses _ hq
    obtain ⟨response, hresponse, -⟩ := hgives
    cases hresponse

theorem nodeUrl_ne_account {p : String} (h : p.toList[1]? ≠ some 'a') : c.nodeUrl p ≠ c.accountRequest.url := by
  refine c.nodeUrl_ne ?_
  rintro rfl
  exact h (by simp)

theorem transactionUrl_ne_account (hash : Json) (path : String) :
    c.transactionUrl hash ++ path ≠ c.accountRequest.url := by
  rw [transactionUrl, nodeUrl, String.append_assoc]
  exact nodeUrl_ne_account (by simp)

/-- The account is asked for once while a transaction is prepared. -/
theorem Preparing.asks_account {es : List Exchange} (h : c.Preparing s es) :
    Asks c.accountRequest (NodeClient.exchangesWith "GET" c.accountRequest.url es) := by
  obtain ⟨calldata, ttl, nonce, encoding, height, account, building, rfl, hencoding, hheight, haccount,
    hbuilding⟩ := h
  simp only [exchangesWith_append]
  rw [exchangesWith_of_post (fun x => hencoding.request_eq) rfl,
    exchangesWith_of_url_ne (fun x => hheight.request_eq) (nodeUrl_ne_account (by decide)),
    exchangesWith_of_post (fun x => hbuilding.request_eq) rfl, List.nil_append, List.nil_append, List.append_nil]
  have hself : NodeClient.exchangesWith "GET" c.accountRequest.url account = account :=
    exchangesWith_eq_self fun x => haccount.request_eq (x := x)
  rwa [hself]

/-- What is done from posting on does not ask for the account. -/
theorem Preparing.asks_account_posted {before rest : List Exchange} (h : c.Preparing s before) (signed : Bytes)
    (o : Outcome) (hrest : NodeClient.exchangesWith "GET" c.accountRequest.url rest = []) :
    Asks c.accountRequest
      (NodeClient.exchangesWith "GET" c.accountRequest.url (before ++ (c.postRequest signed, o) :: rest)) := by
  have hpost : NodeClient.exchangesWith "GET" c.accountRequest.url ((c.postRequest signed, o) :: rest) = [] :=
    (List.filter_cons_of_neg (by simp [postRequest])).trans hrest
  rw [exchangesWith_append, hpost, List.append_nil]
  exact h.asks_account

section Course

variable {finish : Json → Json → Json → Dialogue α} (hfinish : c.AsksInfo finish) {es : List Exchange}
  {e : Except Fault α}

include hfinish in
/-- **A run asks for its account once.** -/
theorem Course.asks_account (h : Course c s finish es e) :
    Asks c.accountRequest (exchangesWith "GET" c.accountRequest.url es) := by
  have hlook : ∀ {hash n looks}, c.Looks hash n looks → exchangesWith "GET" c.accountRequest.url looks = [] :=
    fun {hash n looks} hlooks => exchangesWith_of_url_ne (fun x => hlooks.request_eq)
      (by simpa [lookRequest] using c.transactionUrl_ne_account hash "") "GET"
  cases h with
  | unposted hbefore => exact hbefore.asks_account
  | unhashed hbefore _ => exact hbefore.preparing.asks_account_posted _ _ rfl
  | unmined hbefore _ _ hlooks => exact hbefore.preparing.asks_account_posted _ _ (hlook hlooks)
  | mined hbefore _ _ hlooks _ hlast =>
      refine hbefore.preparing.asks_account_posted _ _ ?_
      rw [exchangesWith_append, hlook hlooks, List.nil_append]
      exact exchangesWith_of_url_ne (fun x => (hfinish _ _ _ _ _ hlast).request_eq)
        (c.transactionUrl_ne_account _ "/info") "GET"

include hfinish in
/-- Behind a look that was answered the account is not asked for again. -/
theorem Course.not_mem_of_lookup (h : Course c s finish es e) {front back : List Exchange} {o : Outcome} {j : Json}
    (hes : es = front ++ (c.accountRequest, o) :: back) (hgives : o.Gives j) (p : Outcome) :
    (c.accountRequest, p) ∉ back := by
  intro hmem
  have hall := h.asks_account hfinish
  have hkept : exchangesWith "GET" c.accountRequest.url ((c.accountRequest, o) :: back) =
      (c.accountRequest, o) :: exchangesWith "GET" c.accountRequest.url back :=
    List.filter_cons_of_pos (by simp [accountRequest])
  rw [hes, exchangesWith_append, hkept] at hall
  rcases hall with hnil | ⟨q, htries⟩
  · simp at hnil
  · have hbehind := htries.eq_nil_of_gives rfl hgives
    have hthere : (c.accountRequest, p) ∈ exchangesWith "GET" c.accountRequest.url back :=
      List.mem_filter.2 ⟨hmem, by simp [accountRequest]⟩
    rw [hbehind] at hthere
    cases hthere

end Course

/-! ### The number of a transaction -/

/-- Where no address is posted to twice, a post stands in one place. -/
theorem eq_of_posts_nodup {front front' back back' : List Exchange} {x y : Exchange}
    (h : (posts (front' ++ y :: back')).Nodup) (heq : front' ++ y :: back' = front ++ x :: back)
    (hx : x.1.method = "POST") (hy : y.1.method = "POST") (hurl : x.1.url = y.1.url) :
    front' = front ∧ y = x ∧ back' = back := by
  rw [posts_append, posts_cons hy, List.nodup_append, List.nodup_cons] at h
  obtain ⟨-, ⟨hback, -⟩, hfront⟩ := h
  refine (List.append_cons_inj_of_notMem (fun hmem => ?_) fun hmem => ?_).1 heq
  · exact hfront _ (mem_posts hmem hx) _ List.mem_cons_self hurl
  · exact hback (hurl ▸ mem_posts hmem hx)

/-- What is not asked for is not exchanged. -/
theorem Asks.not_mem {q r : Request} {es : List Exchange} (h : Asks q es) (hne : q ≠ r) (o : Outcome) : (r, o) ∉ es :=
  fun hmem => hne (h.request_eq hmem).symm

/-- **What is built has the number that was found**: before a run asks for a transaction of its path to be built, it
was told of its account. -/
theorem submit_numbers {finish : Json → Json → Json → Dialogue α} (hfinish : c.AsksInfo finish)
    {es front back : List Exchange} {e : Except Fault α} {r : Request} {o : Outcome}
    (h : Runs (c.submit s finish) es e) (hes : es = front ++ (r, o) :: back) (hmethod : r.method = "POST")
    (hurl : r.url = c.internalUrl s.path) :
    ∃ calldata ttl nonce asked account, front = asked ++ account ∧ c.Numbers nonce account ∧
      r = c.buildRequest s ttl nonce calldata := by
  have hnodup : (posts es).Nodup := ((submit_runs h).safe hfinish).nodup_posts
  have hmem : (r, o) ∈ es := by
    rw [hes]
    exact List.mem_append_right front List.mem_cons_self
  -- a run that ends before it comes to that asked for other things only
  have hcalldata : c.calldataRequest s ≠ r := by
    rintro rfl
    have hendpoints := c.nodup_endpoints s
    rw [endpoints, List.nodup_cons] at hendpoints
    exact hendpoints.1 (hurl ▸ List.mem_cons_self)
  have hget : ∀ {q : Request}, q.method = "GET" → q ≠ r := by
    rintro q hq rfl
    rw [hmethod] at hq
    exact absurd hq (by decide)
  rcases h.bind_inv with ⟨f, rfl, h₁⟩ | ⟨calldata, encoding, es₁, rfl, h₁, hn₁⟩
  · exact absurd hmem ((encodeCalldata_runs h₁).1.not_mem hcalldata o)
  have hencoding := (encodeCalldata_runs h₁).1.not_mem hcalldata o
  rcases hn₁.bind_inv with ⟨f, rfl, h₂⟩ | ⟨ttl, height, es₂, rfl, h₂, hn₂⟩
  · exact absurd hmem (List.not_mem_append hencoding ((absoluteTtl_runs h₂).1.not_mem (hget rfl) o))
  have hheight := (absoluteTtl_runs h₂).1.not_mem (hget rfl) o
  rcases hn₂.bind_inv with ⟨f, rfl, h₃⟩ | ⟨nonce, account, es₃, rfl, h₃, hn₃⟩
  · have haccount := (nextNonce_runs h₃).1.not_mem (hget rfl) o
    exact absurd hmem (List.not_mem_append hencoding (List.not_mem_append hheight haccount))
  have hnumbers := (nextNonce_runs h₃).2 nonce rfl
  -- the request to build is sent once, so that what stands before it is what was asked until then
  have hbuilding : ∃ p rest, es₃ = (c.buildRequest s ttl nonce calldata, p) :: rest := by
    rcases hn₃.bind_inv with ⟨f, rfl, h₄⟩ | ⟨res, building, es₄, rfl, h₄, -⟩
    all_goals
      obtain ⟨p, hp, -⟩ := request_runs h₄
      exact ⟨p, _, by rw [hp.eq_singleton rfl]; rfl⟩
  obtain ⟨p, rest, rfl⟩ := hbuilding
  rw [← List.append_assoc, ← List.append_assoc] at hes hnodup
  obtain ⟨rfl, heq, -⟩ := eq_of_posts_nodup hnodup hes hmethod rfl hurl
  cases heq
  exact ⟨calldata, ttl, nonce, encoding ++ height, account, rfl, hnumbers, rfl⟩

/-! ### Nodes that count -/

variable (c) in
/-- The request posts a transaction. -/
def PostsTransaction (r : Request) : Prop :=
  r.method = "POST" ∧ r.url = c.nodeUrl "/transactions"

instance (r : Request) : Decidable (c.PostsTransaction r) :=
  inferInstanceAs (Decidable (_ ∧ _))

variable (c) in
/-- How many transactions of the account were accepted once these requests were sent, the latest first: those that
were accepted before, and the posted ones that the node accepts where it has seen what was sent until then. -/
def acceptedOf (before : Nat) (accepts : List Request → Request → Bool) : List Request → Nat
  | [] => before
  | r :: sent => acceptedOf before accepts sent + if c.PostsTransaction r ∧ accepts sent r then 1 else 0

/-- Services that answer for the account of a client by the number of its transactions accepted so far. -/
structure CountingNode (c : NodeClient) where
  services : Transport
  before : Nat
  accepts : List Request → Request → Bool
  reports : ∀ sent j, (services sent c.accountRequest).Gives j →
    j.member? "nonce" = some (.int (c.acceptedOf before accepts sent))

/-- The number of transactions of the account that a node accepted. -/
def CountingNode.accepted (node : CountingNode c) (sent : List Request) : Nat :=
  c.acceptedOf node.before node.accepts sent

/-! ### Calls side by side -/

variable (c) in
/-- The request is to build a call. -/
def BuildsCall (r : Request) : Prop :=
  r.method = "POST" ∧ r.url = c.internalUrl "/debug/contracts/call"

instance (r : Request) : Decidable (c.BuildsCall r) :=
  inferInstanceAs (Decidable (_ ∧ _))

variable (c) in
/-- Behind these exchanges a party looked the account up and was answered. -/
def LooksUp (log : List (Nat × Exchange)) (i : Nat) (earlier : List (Nat × Exchange)) : Prop :=
  ∃ o later, log = earlier ++ (i, c.accountRequest, o) :: later ∧ ∃ j, o.Gives j

theorem LooksUp.append {log earlier : List (Nat × Exchange)} {i : Nat} (h : c.LooksUp log i earlier)
    (behind : List (Nat × Exchange)) : c.LooksUp (log ++ behind) i earlier := by
  obtain ⟨o, later, rfl, hgives⟩ := h
  exact ⟨o, later ++ behind, by simp, hgives⟩

/-- What calls exchange that run side by side in a world. -/
def callsLog (calls : List (NodeClient × CallRequest)) (w : World) (schedule : List Nat) : List (Nat × Exchange) :=
  (Interleaving.run { parties := calls.map fun p => p.1.call p.2, world := w } schedule).log

section Calls

variable {calls : List (NodeClient × CallRequest)} {w : World} {schedule : List Nat}

/-- What a call exchanged by itself is the beginning of a run. -/
theorem own_callsLog {i : Nat} {x : Exchange} (h : (i, x) ∈ callsLog calls w schedule) :
    ∃ p ∈ calls, ∃ es e, Runs (p.1.call p.2) (Interleaving.own i (callsLog calls w schedule) ++ es) e := by
  have hfrom := Interleaving.from_run (calls.map fun p => p.1.call p.2) w schedule
  cases hp : calls[i]? with
  | none =>
      have hown := (hfrom.absent i (by simp [hp])).2
      have hmem := Interleaving.mem_own.2 h
      rw [callsLog, hown] at hmem
      cases hmem
  | some p =>
      obtain ⟨es, e, hruns⟩ := hfrom.own_runs (i := i) (d := p.1.call p.2) (by simp [hp])
      exact ⟨p, List.mem_of_getElem? hp, es, e, hruns⟩

variable (hsame : ∀ p ∈ calls, p.1.network = c.network ∧ p.1.keypair = c.keypair)

include hsame

/-- The account is asked for as any of the clients would. -/
theorem accountRequest_eq {p : NodeClient × CallRequest} (hp : p ∈ calls) : p.1.accountRequest = c.accountRequest := by
  obtain ⟨hnetwork, hkeypair⟩ := hsame p hp
  simp [accountRequest, nodeUrl, hnetwork, hkeypair]

/-- Behind a look that was answered a call does not look its account up again. -/
theorem not_mem_of_looked {i : Nat} {front back : List (Nat × Exchange)} {o : Outcome} {j : Json}
    (hlog : callsLog calls w schedule = front ++ (i, c.accountRequest, o) :: back) (hgives : o.Gives j) (q : Outcome) :
    (i, c.accountRequest, q) ∉ back := by
  intro hmem
  have hthere : (i, c.accountRequest, o) ∈ callsLog calls w schedule := by simp [hlog]
  obtain ⟨p, hp, es, e, hruns⟩ := own_callsLog hthere
  rw [hlog, Interleaving.own_append, Interleaving.own_cons_self, List.append_assoc, List.cons_append,
    ← accountRequest_eq hsame hp] at hruns
  refine (submit_runs hruns).not_mem_of_lookup (asksInfo_called p.2) rfl hgives q (List.mem_append_left es ?_)
  rw [accountRequest_eq hsame hp]
  exact Interleaving.mem_own.2 hmem

/-- **A call looks its account up once.** -/
theorem LooksUp.unique {i : Nat} {earlier earlier' : List (Nat × Exchange)}
    (h : c.LooksUp (callsLog calls w schedule) i earlier) (h' : c.LooksUp (callsLog calls w schedule) i earlier') :
    earlier = earlier' := by
  obtain ⟨o, later, hlog, j, hgives⟩ := h
  obtain ⟨o', later', hlog', j', hgives'⟩ := h'
  -- where the looks are not the same, one is behind the other
  rcases List.append_eq_append_iff.1 (hlog.symm.trans hlog') with ⟨between, rfl, hbetween⟩ | ⟨between, rfl, hbetween⟩
  · cases between with
    | nil => exact (List.append_nil earlier).symm
    | cons x between =>
        refine absurd ?_ (not_mem_of_looked hsame hlog hgives o')
        rw [(List.cons.inj hbetween).2]
        simp
  · cases between with
    | nil => exact List.append_nil earlier'
    | cons x between =>
        refine absurd ?_ (not_mem_of_looked hsame hlog' hgives' o)
        rw [(List.cons.inj hbetween).2]
        simp

/-- **The number of a call** tells how many transactions were accepted when its account was looked up. -/
theorem carries_of_callsLog (node : CountingNode c) (hw : w.transport = node.services) {i : Nat} {r : Request}
    {o : Outcome} {front back : List (Nat × Exchange)} (hlog : callsLog calls w schedule = front ++ (i, r, o) :: back)
    (hr : c.BuildsCall r) :
    ∃ earlier, c.LooksUp front i earlier ∧
      r.Carries (node.accepted (Interleaving.sentBehind w earlier) + 1) := by
  have hthere : (i, r, o) ∈ callsLog calls w schedule := by simp [hlog]
  obtain ⟨p, hp, es, e, hruns⟩ := own_callsLog hthere
  rw [hlog, Interleaving.own_append, Interleaving.own_cons_self, List.append_assoc, List.cons_append] at hruns
  have hurl : r.url = p.1.internalUrl (p.1.invocation p.2).path := by
    rw [hr.2, internalUrl, internalUrl, (hsame p hp).1]
    rfl
  obtain ⟨calldata, ttl, nonce, asked, account, hfront, ⟨q, members, last, htries, hgives, hlast, rfl⟩, rfl⟩ :=
    submit_numbers (asksInfo_called p.2) hruns rfl hr.1 hurl
  -- the look that the number was taken from is in front of what was built
  have hmem : (i, c.accountRequest, q) ∈ front := by
    rw [← accountRequest_eq hsame hp, ← Interleaving.mem_own, hfront]
    exact List.mem_append_right asked htries.mem
  obtain ⟨earlier, later, rfl⟩ := List.append_of_mem hmem
  refine ⟨earlier, ⟨q, later, rfl, _, hgives⟩, ?_⟩
  have hanswered : q = node.services (Interleaving.sentBehind w earlier) c.accountRequest := by
    rw [List.append_assoc, List.cons_append] at hlog
    exact hw ▸ (Interleaving.from_run _ w schedule).answered hlog
  have hreported := node.reports (Interleaving.sentBehind w earlier) _ (hanswered ▸ hgives)
  have hcount : last = node.accepted (Interleaving.sentBehind w earlier) := by
    rw [show Json.lookup? members "nonce" = _ from hreported] at hlast
    exact (Except.ok.inj hlast).symm
  rw [← hcount]
  rfl

end Calls

/-- **Calls have the same number exactly if nothing was accepted between their looks.** However calls run side by
side with clients of one account, the request to build a call carries one more than the number of transactions that
the node had accepted when the call looked the account up. -/
theorem call_numbers (c : NodeClient) (calls : List (NodeClient × CallRequest))
    (hsame : ∀ p ∈ calls, p.1.network = c.network ∧ p.1.keypair = c.keypair) (node : CountingNode c) (w : World)
    (hw : w.transport = node.services) (schedule : List Nat) :
    (∀ i r o front back, callsLog calls w schedule = front ++ (i, r, o) :: back → c.BuildsCall r →
      ∃ earlier, c.LooksUp front i earlier ∧
        r.Carries (node.accepted (Interleaving.sentBehind w earlier) + 1)) ∧
    ∀ i i' r r' o o' earlier between m m',
      (i, r, o) ∈ callsLog calls w schedule → c.BuildsCall r → r.Carries m →
      (i', r', o') ∈ callsLog calls w schedule → c.BuildsCall r' → r'.Carries m' →
      c.LooksUp (callsLog calls w schedule) i earlier → c.LooksUp (callsLog calls w schedule) i' (earlier ++ between) →
        (m = m' ↔ node.accepted (Interleaving.sentBehind w (earlier ++ between)) =
          node.accepted (Interleaving.sentBehind w earlier)) := by
  have hcarries : ∀ {i r o earlier m}, (i, r, o) ∈ callsLog calls w schedule → c.BuildsCall r → r.Carries m →
      c.LooksUp (callsLog calls w schedule) i earlier → m = node.accepted (Interleaving.sentBehind w earlier) + 1 := by
    intro i r o earlier m hmem hr hm hlook
    obtain ⟨front, back, hlog⟩ := List.append_of_mem hmem
    obtain ⟨earlier', hlook', hcarried⟩ := carries_of_callsLog hsame node hw hlog hr
    have hthere : c.LooksUp (callsLog calls w schedule) i earlier' := hlog ▸ hlook'.append _
    rw [hlook.unique hsame hthere]
    exact hm.unique hcarried
  refine ⟨fun i r o front back hlog hr => carries_of_callsLog hsame node hw hlog hr, ?_⟩
  intro i i' r r' o o' earlier between m m' hmem hr hm hmem' hr' hm' hlook hlook'
  have hfirst := hcarries hmem hr hm hlook
  have hsecond := hcarries hmem' hr' hm' hlook'
  omega

/-! ### Two calls that race -/

open Deployer (localClient tickRequest)

/-- Nothing of this was a transaction that was posted. -/
def noPost (sent : List Request) : Bool :=
  sent.all fun r => !decide (localClient.PostsTransaction r)

/-- Services that accept one transaction and refuse any other, of an account that had sent three. -/
def racedServices : Transport := fun sent r =>
  if r.url = localClient.accountRequest.url then
    .ok (.ofText 200 (String.ofList (Json.object [("nonce", .int (if noPost sent then 3 else 4))]).render))
  else if localClient.PostsTransaction r && !noPost sent then .ok (.ofText 400 "")
  else Deployer.miningServices "ok" sent r

theorem acceptedOf_noPost (sent : List Request) :
    localClient.acceptedOf 3 (fun sent _ => noPost sent) sent = if noPost sent then 3 else 4 := by
  induction sent with
  | nil => rfl
  | cons r sent ih =>
      have hcons : noPost (r :: sent) = (!decide (localClient.PostsTransaction r) && noPost sent) := rfl
      rw [acceptedOf, ih, hcons]
      by_cases hr : localClient.PostsTransaction r <;> cases hs : noPost sent <;> simp [hr]

/-- The number of a transaction that a JSON value tells. -/
def nonce? (j : Json) : Option Int :=
  match j.member? "nonce" with
  | some (.int n) => some n
  | _ => none

theorem nonce?_eq_some {j : Json} {n : Int} (h : nonce? j = some n) : j.member? "nonce" = some (.int n) := by
  unfold nonce? at h
  split at h
  · next m hm => rw [hm, Option.some.inj h]
  · cases h

/-- A response with a number tells it. -/
theorem nonce?_of_json {n : Int} (hn : n = 3 ∨ n = 4) :
    (Response.ofText 200 (String.ofList (Json.object [("nonce", .int n)]).render)).json.toOption.bind nonce? =
      some n := by
  rcases hn with rfl | rfl <;> decide +kernel

/-- The node of those services. -/
def racedNode : CountingNode localClient where
  services := racedServices
  before := 3
  accepts sent _ := noPost sent
  reports sent j h := by
    obtain ⟨response, hresponse, -, hj⟩ := h
    rw [racedServices, if_pos rfl] at hresponse
    cases hresponse
    rw [acceptedOf_noPost]
    have hthere : ((if noPost sent then 3 else 4 : Nat) : Int) = if noPost sent then 3 else 4 := by
      split <;> rfl
    have htold := nonce?_of_json (n := if noPost sent then 3 else 4) (by split <;> simp)
    rw [hj] at htold
    rw [hthere]
    exact nonce?_eq_some htold

/-- The world of those services. -/
def racedWorld : World where
  transport := racedServices

/-- The same call twice. -/
def racedCalls : List (NodeClient × CallRequest) :=
  [(localClient, tickRequest), (localClient, tickRequest)]

/-- The first call is posted before the second one begins. -/
def inTurn : List Nat := [0, 0, 0, 0, 0, 1, 1, 1, 1]

/-- Both calls look their account up before one of them is built, and are carried on to their ends. -/
def racing : List Nat := [0, 0, 0, 1, 1, 1, 0, 1, 0, 1, 0, 0]

/-- The numbers of the calls to be built, each with its party. -/
def numbersBuilt (log : List (Nat × Exchange)) : List (Nat × Int) :=
  log.filterMap fun x => if localClient.BuildsCall x.2.1 then (x.2.1.body.bind nonce?).map (x.1, ·) else none

theorem builds_of_mem_numbersBuilt {log : List (Nat × Exchange)} {i : Nat} {m : Int}
    (h : (i, m) ∈ numbersBuilt log) : ∃ r o, (i, r, o) ∈ log ∧ localClient.BuildsCall r ∧ r.Carries m := by
  obtain ⟨⟨i', r, o⟩, hmem, hbuilt⟩ := List.mem_filterMap.1 h
  split at hbuilt
  · next hr =>
      obtain ⟨n, hn, heq⟩ := Option.map_eq_some_iff.1 hbuilt
      cases heq
      obtain ⟨body, hbody, hnonce⟩ := Option.bind_eq_some_iff.1 hn
      exact ⟨r, o, hmem, hr, Option.bind_eq_some_iff.2 ⟨body, hbody, nonce?_eq_some hnonce⟩⟩
  · cases hbuilt

theorem sameAccount_raced :
    ∀ p ∈ racedCalls, p.1.network = localClient.network ∧ p.1.keypair = localClient.keypair := by
  simp [racedCalls]

/-- Where the second call looks its account up once the transaction of the first was accepted, it has the next
number. -/
theorem call_numbers_apart :
    (∀ p ∈ racedCalls, p.1.network = localClient.network ∧ p.1.keypair = localClient.keypair) ∧
    racedWorld.transport = racedNode.services ∧
    ∃ r o earlier, (1, r, o) ∈ callsLog racedCalls racedWorld inTurn ∧ r.Carries 5 ∧
      localClient.LooksUp (callsLog racedCalls racedWorld inTurn) 1 earlier ∧
      racedNode.accepted (Interleaving.sentBehind racedWorld earlier) = 4 := by
  have hbuilt : numbersBuilt (callsLog racedCalls racedWorld inTurn) = [(0, 4), (1, 5)] := by decide +kernel
  obtain ⟨r, o, hmem, hr, hcarries⟩ := builds_of_mem_numbersBuilt (i := 1) (m := 5) (by rw [hbuilt]; simp)
  obtain ⟨front, back, hlog⟩ := List.append_of_mem hmem
  obtain ⟨earlier, hlook, hfound⟩ := (call_numbers localClient racedCalls sameAccount_raced racedNode racedWorld rfl
    inTurn).1 1 r o front back hlog hr
  refine ⟨sameAccount_raced, rfl, r, o, earlier, hmem, hcarries, hlog ▸ hlook.append _, ?_⟩
  have hnumber := hcarries.unique hfound
  omega

/-- **Two calls with one number**: both look their account up before any of them is posted. The node accepts the
transaction of the first, and the second call fails. -/
theorem call_numbers_collide :
    (∀ p ∈ racedCalls, p.1.network = localClient.network ∧ p.1.keypair = localClient.keypair) ∧
    racedWorld.transport = racedNode.services ∧
    (∃ r o r' o', (0, r, o) ∈ callsLog racedCalls racedWorld racing ∧ localClient.BuildsCall r ∧ r.Carries 4 ∧
      (1, r', o') ∈ callsLog racedCalls racedWorld racing ∧ localClient.BuildsCall r' ∧ r'.Carries 4) ∧
    (Interleaving.run { parties := racedCalls.map fun p => p.1.call p.2, world := racedWorld } racing).parties.map
      Dialogue.succeeded? = [some true, some false] := by
  obtain ⟨hbuilt, hends⟩ : numbersBuilt (callsLog racedCalls racedWorld racing) = [(0, 4), (1, 4)] ∧
      (Interleaving.run { parties := racedCalls.map fun p => p.1.call p.2, world := racedWorld } racing).parties.map
        Dialogue.succeeded? = [some true, some false] := by decide +kernel
  obtain ⟨r, o, hmem, hr, hcarries⟩ := builds_of_mem_numbersBuilt (i := 0) (m := 4) (by rw [hbuilt]; simp)
  obtain ⟨r', o', hmem', hr', hcarries'⟩ := builds_of_mem_numbersBuilt (i := 1) (m := 4) (by rw [hbuilt]; simp)
  exact ⟨sameAccount_raced, rfl, ⟨r, o, r', o', hmem, hr, hcarries, hmem', hr', hcarries'⟩, hends⟩

end NodeClient

end SophiaBind
