/-
**How a transaction is submitted.**

Deploying and calling differ in what the node builds the transaction from and in what is read at the end;
what is sent in between is the same. A submission asks for call data, for the height if the life time is
limited, for the account, and for the transaction; it posts the signed transaction and looks until it is
mined. The exchanges of a run are those of the steps that it came to.

Main definitions:

* `NodeClient.CarriesSigned` — a request that posts a signed transaction,
* `NodeClient.Prepared` — everything asked before a transaction is posted, and how it was answered,
* `NodeClient.Preparing` — the same as far as a run came,
* `NodeClient.MinedIn` — a look that reports the transaction in a block.

Main results:

* `NodeClient.poll_runs` — **looking for a transaction**,
* `NodeClient.submit_runs` — **the exchanges of a submission**.
-/

import SophiaBind.Proofs.Encoded
import SophiaBind.Proofs.Requests
import SophiaBind.Proofs.Shown

namespace SophiaBind

open Dialogue (Runs)

/-- A usable answer with a member. -/
def Outcome.Has (o : Outcome) (name : String) (v : Json) : Prop :=
  ∃ j, o.Gives j ∧ j.member? name = some v

/-- A value that counts as an integer. -/
def Json.Counts (j : Json) (i : Int) : Prop :=
  (Value.ofJson j).toInt = .ok i

namespace NodeClient

variable (c : NodeClient) (s : Submission) {α : Type}

/-! ### What is sent -/

/-- The request for call data. -/
def calldataRequest : Request where
  method := "POST"
  url := c.compilerUrl "/encode-calldata"
  body := some (.object
    [("source", .text s.source), ("function", .ofText s.function), ("arguments", .array (s.arguments.map .text)),
     ("options", includeOptions s.includes)])

/-- The request for the height of the chain. -/
def heightRequest : Request where
  method := "GET"
  url := c.nodeUrl "/key-blocks/current/height"

/-- The request for the client's account. -/
def accountRequest : Request where
  method := "GET"
  url := c.nodeUrl ("/accounts/" ++ c.keypair.publicKey)

/-- The request to build the transaction. -/
def buildRequest (ttl nonce : Int) (calldata : Json) : Request where
  method := "POST"
  url := c.internalUrl s.path
  body := some (s.body ttl nonce calldata)

/-- The request that posts a signed transaction. -/
def postRequest (signed : Bytes) : Request where
  method := "POST"
  url := c.nodeUrl "/transactions"
  body := some (.object [("tx", .text (Encoded.encode "tx" signed))])

/-- The request for a transaction. -/
def lookRequest (hash : Json) : Request where
  method := "GET"
  url := c.transactionUrl hash

/-- The request for what is known about the call of a transaction. -/
def infoRequest (hash : Json) : Request where
  method := "GET"
  url := c.transactionUrl hash ++ "/info"

/-- A transaction with the client's signature over it. -/
def signed (seed payload : Bytes) : Bytes :=
  Transaction.envelope (Ed25519.sign seed (Transaction.signedMessage c.network.networkId payload)) payload

/-- A request carries a signed transaction: the text in its body stands for a list of the mark and the version of such,
one signature over the network's id and the bytes of the transaction, and these bytes. -/
def CarriesSigned (seed payload : Bytes) (r : Request) : Prop :=
  ∃ text : String, r.body = some (.object [("tx", .text text)]) ∧
    Encoded.decode text = .ok (Rlp.encode (.list
      [.number 11, .number 1, .list [.bytes (Ed25519.sign seed (Utf8.encode c.network.networkId.toList ++ payload))],
        .bytes payload]))

/-- **What is posted carries the transaction**, signed. -/
theorem carriesSigned_postRequest (seed payload : Bytes) :
    c.CarriesSigned seed payload (c.postRequest (c.signed seed payload)) :=
  ⟨_, rfl, Encoded.decode_encode (by decide) (c.signed seed payload)⟩

/-! ### What is asked before a transaction is posted -/

/-- The exchanges give call data. -/
def Encodes (calldata : Json) (es : List Exchange) : Prop :=
  ∃ o, Tries (c.calldataRequest s) o es ∧ o.Has "calldata" calldata

/-- The exchanges give the block at which the life time ends; an unlimited one needs none. -/
def Limits (ttl : Int) (es : List Exchange) : Prop :=
  if 0 < s.ttl then
    ∃ o h height, Tries c.heightRequest o es ∧ o.Has "height" h ∧ h.Counts height ∧ ttl = height + s.ttl
  else es = [] ∧ ttl = 0

/-- The exchanges give the number of the account's next transaction; a new account has sent none. -/
def Numbers (nonce : Int) (es : List Exchange) : Prop :=
  ∃ o members last, Tries c.accountRequest o es ∧ o.Gives (.object members) ∧
    ((Json.lookup? members "nonce").getD (.int 0)).Counts last ∧ nonce = last + 1

/-- The exchanges give an unsigned transaction. -/
def Builds (ttl nonce : Int) (calldata tx : Json) (es : List Exchange) : Prop :=
  ∃ o, Tries (c.buildRequest s ttl nonce calldata) o es ∧ o.Has "tx" tx

/-- Everything that is asked before a transaction is posted, in order, each answered usably; the last answer
is a transaction of these bytes. -/
def Prepared (payload : Bytes) (es : List Exchange) : Prop :=
  ∃ calldata ttl nonce tx text encoding height account building,
    es = encoding ++ height ++ account ++ building ∧ c.Encodes s calldata encoding ∧ c.Limits s ttl height ∧
      c.Numbers nonce account ∧ c.Builds s ttl nonce calldata tx building ∧ tx.text? = some text ∧
      Encoded.decode text = .ok payload

/-- A request that a run may not have come to. -/
def Asks (r : Request) (es : List Exchange) : Prop :=
  es = [] ∨ ∃ o, Tries r o es

/-- What is asked before a transaction is posted, as far as a run came. -/
def Preparing (es : List Exchange) : Prop :=
  ∃ calldata ttl nonce encoding height account building,
    es = encoding ++ height ++ account ++ building ∧ Asks (c.calldataRequest s) encoding ∧
      Asks c.heightRequest height ∧ Asks c.accountRequest account ∧
      Asks (c.buildRequest s ttl nonce calldata) building

variable {c s}

theorem Asks.nil {r : Request} : Asks r [] :=
  .inl rfl

theorem Tries.asks {r : Request} {o : Outcome} {es : List Exchange} (h : Tries r o es) : Asks r es :=
  .inr ⟨o, h⟩

theorem Asks.request_eq {r : Request} {es : List Exchange} (h : Asks r es) {x : Exchange} (hx : x ∈ es) :
    x.1 = r := by
  rcases h with rfl | ⟨o, h⟩
  · cases hx
  · exact h.request_eq hx

theorem Limits.asks {ttl : Int} {es : List Exchange} (h : c.Limits s ttl es) : Asks c.heightRequest es := by
  unfold Limits at h
  split at h
  · obtain ⟨o, -, -, ho, -⟩ := h
    exact ho.asks
  · obtain ⟨rfl, -⟩ := h
    exact .nil

theorem Prepared.preparing {payload : Bytes} {es : List Exchange} (h : c.Prepared s payload es) :
    c.Preparing s es := by
  obtain ⟨calldata, ttl, nonce, tx, text, encoding, height, account, building, rfl, ⟨o, ho, -⟩, hh,
    ⟨o', _, _, ho', -⟩, ⟨o'', ho'', -⟩, -⟩ := h
  exact ⟨calldata, ttl, nonce, encoding, height, account, building, rfl, ho.asks, hh.asks, ho'.asks, ho''.asks⟩

theorem encodeCalldata_runs {es : List Exchange} {e : Except Fault Json}
    (h : Runs (c.encodeCalldata s.source s.function s.arguments s.includes) es e) :
    Asks (c.calldataRequest s) es ∧ ∀ calldata, e = .ok calldata → c.Encodes s calldata es := by
  obtain ⟨o, ho, hread⟩ := asked_runs (fun res => silent_item res "calldata") h
  refine ⟨ho.asks, fun calldata he => ?_⟩
  obtain ⟨res, hres, hitem⟩ := hread calldata he
  exact ⟨o, ho, res, hres, (item_runs hitem).2 calldata rfl⟩

theorem absoluteTtl_runs {es : List Exchange} {e : Except Fault Int} (h : Runs (c.absoluteTtl s.ttl) es e) :
    Asks c.heightRequest es ∧ ∀ ttl, e = .ok ttl → c.Limits s ttl es := by
  unfold absoluteTtl at h
  split at h
  · next hle =>
      obtain ⟨rfl, rfl⟩ := h.done_inv
      refine ⟨.nil, fun ttl he => ?_⟩
      rw [Limits, if_neg (by omega)]
      cases he
      exact ⟨rfl, rfl⟩
  · next hlt =>
      obtain ⟨o, ho, hread⟩ := asked_runs (fun res => (silent_item res "height").bind fun v =>
        (silent_toInt v).bind fun height => silent_pure (height + s.ttl)) h
      refine ⟨ho.asks, fun ttl he => ?_⟩
      rw [Limits, if_pos (by omega)]
      obtain ⟨res, hres, hr⟩ := hread ttl he
      rcases hr.bind_inv with ⟨_, hf, -⟩ | ⟨v, es₁, es₂, hes, hv, hr⟩
      · cases hf
      rcases hr.bind_inv with ⟨_, hf, -⟩ | ⟨height, es₃, es₄, hes', hheight, hr⟩
      · cases hf
      obtain ⟨-, hr⟩ := hr.done_inv
      cases hr
      exact ⟨o, v, height, ho, ⟨res, hres, (item_runs hv).2 v rfl⟩, (toInt_runs hheight).2.symm, rfl⟩

theorem nextNonce_runs {es : List Exchange} {e : Except Fault Int} (h : Runs c.nextNonce es e) :
    Asks c.accountRequest es ∧ ∀ nonce, e = .ok nonce → c.Numbers nonce es := by
  obtain ⟨o, ho, hread⟩ := asked_runs (fun res => (silent_get res (.int 0) "nonce").bind fun v =>
    (silent_toInt v).bind fun nonce => silent_pure (nonce + 1)) h
  refine ⟨ho.asks, fun nonce he => ?_⟩
  obtain ⟨res, hres, hr⟩ := hread nonce he
  rcases hr.bind_inv with ⟨_, hf, -⟩ | ⟨v, es₁, es₂, hes, hv, hr⟩
  · cases hf
  rcases hr.bind_inv with ⟨_, hf, -⟩ | ⟨last, es₃, es₄, hes', hlast, hr⟩
  · cases hf
  obtain ⟨-, hr⟩ := hr.done_inv
  cases hr
  obtain ⟨members, rfl, rfl⟩ := (get_runs hv).2 v rfl
  exact ⟨o, members, last, ho, hres, (toInt_runs hlast).2.symm, rfl⟩

/-! ### Posting -/

/-- The hash that a posted transaction is known by: what the node answers, or else its digest. -/
def Hashed (signed : Bytes) (o : Outcome) (hash : Json) : Prop :=
  ∃ members, o.Gives (.object members) ∧
    hash = (Json.lookup? members "tx_hash").getD (.text (Encoded.encode "th" (Blake2b.hash 32 signed)))

theorem sign_eq_ok {tx : LooseText} {signed hash : String}
    (h : Transaction.sign tx c.keypair.secretKey c.network.networkId = .ok (signed, hash)) :
    ∃ payload seed, Encoded.decode tx = .ok payload ∧ Transaction.seedOfSecret c.keypair.secretKey = .ok seed ∧
      signed = Encoded.encode "tx" (c.signed seed payload) ∧
      hash = Encoded.encode "th" (Blake2b.hash 32 (c.signed seed payload)) := by
  unfold Transaction.sign at h
  cases hp : Encoded.decode tx with
  | error f => rw [hp] at h; cases h
  | ok payload =>
      cases hs : Transaction.seedOfSecret c.keypair.secretKey with
      | error f => rw [hp, hs] at h; cases h
      | ok seed =>
          rw [hp, hs] at h
          cases h
          exact ⟨payload, seed, rfl, rfl, rfl, rfl⟩

/-- **Posting**: a transaction that can be read and signed is posted once, with the client's signature. -/
theorem postSigned_runs {tx : Json} {es : List Exchange} {e : Except Fault Json}
    (h : Runs (c.postSigned tx) es e) :
    (es = [] ∧ ∃ f, e = .error f) ∨
      ∃ text payload seed o, tx.text? = some text ∧ Encoded.decode text = .ok payload ∧
        Transaction.seedOfSecret c.keypair.secretKey = .ok seed ∧
        es = [(c.postRequest (c.signed seed payload), o)] ∧
        ∀ hash, e = .ok hash → Hashed (c.signed seed payload) o hash := by
  unfold postSigned at h
  cases ht : tx.text? with
  | none =>
      rw [ht] at h
      obtain ⟨rfl, rfl⟩ := h.fail_inv
      exact .inl ⟨rfl, _, rfl⟩
  | some text =>
      rw [ht] at h
      rcases h.bind_inv with ⟨_, -, h₁⟩ | ⟨_, es₁, es₂, rfl, h₁, h⟩
      · cases h₁.done_inv.2
      obtain ⟨rfl, h₁⟩ := h₁.done_inv
      cases h₁
      rcases h.bind_inv with ⟨fault, rfl, h₁⟩ | ⟨signing, es₁, es₃, rfl, h₁, h⟩
      · obtain ⟨rfl, -⟩ := h₁.ofExcept_inv
        exact .inl ⟨rfl, fault, rfl⟩
      obtain ⟨rfl, hsign⟩ := h₁.ofExcept_inv
      obtain ⟨signed, hash⟩ := signing
      obtain ⟨payload, seed, hpayload, hseed, rfl, rfl⟩ := sign_eq_ok hsign.symm
      obtain ⟨o, ho, hread⟩ := asked_runs (fun res => silent_get res _ "tx_hash") h
      refine .inr ⟨text, payload, seed, o, rfl, hpayload, hseed, ho.eq_singleton rfl, fun hash he => ?_⟩
      obtain ⟨res, hres, hget⟩ := hread hash he
      obtain ⟨members, rfl, hhash⟩ := (get_runs hget).2 hash rfl
      exact ⟨members, hres, hhash⟩

/-! ### Looking -/

/-- At most `n` looks for a transaction. -/
def Looks (hash : Json) (n : Nat) (es : List Exchange) : Prop :=
  ∃ looks : List (List Exchange), es = looks.flatten ∧ looks.length ≤ n ∧
    ∀ look ∈ looks, ∃ o, Tries (c.lookRequest hash) o look

/-- One of the exchanges reports the transaction in a block. -/
def MinedIn (hash mined : Json) (es : List Exchange) : Prop :=
  ∃ o h height, (c.lookRequest hash, o) ∈ es ∧ o.Gives mined ∧ mined.member? "block_height" = some h ∧
    h.Counts height ∧ 0 < height

section Looking

variable {hash mined : Json} {n : Nat} {o : Outcome} {look es : List Exchange}

theorem Looks.nil (hash : Json) (n : Nat) : c.Looks hash n [] :=
  ⟨[], rfl, Nat.zero_le n, by simp⟩

theorem Looks.cons (hlook : Tries (c.lookRequest hash) o look) (h : c.Looks hash n es) :
    c.Looks hash (n + 1) (look ++ es) := by
  obtain ⟨looks, rfl, hlen, hlooks⟩ := h
  exact ⟨look :: looks, rfl, Nat.succ_le_succ hlen, List.forall_mem_cons.2 ⟨⟨o, hlook⟩, hlooks⟩⟩

theorem Looks.once (hlook : Tries (c.lookRequest hash) o look) : c.Looks hash (n + 1) look := by
  simpa using Looks.cons hlook (.nil hash n)

theorem MinedIn.behind (h : c.MinedIn hash mined es) (look : List Exchange) : c.MinedIn hash mined (look ++ es) := by
  obtain ⟨o, k, height, hmem, hrest⟩ := h
  exact ⟨o, k, height, List.mem_append_right look hmem, hrest⟩

/-- A look that finds a height above 0: the default for a transaction that is in no block is not positive. -/
theorem MinedIn.of_height {members : List (LooseText × Json)} {height : Int} (hlook : Tries (c.lookRequest hash) o look)
    (ho : o.Gives (.object members))
    (hheight : .ok height = (Value.ofJson ((Json.lookup? members "block_height").getD (.int (-1)))).toInt)
    (hpos : 0 < height) : c.MinedIn hash (.object members) look := by
  cases hm : Json.lookup? members "block_height" with
  | none =>
      rw [hm] at hheight
      cases hheight
      exact absurd hpos (by decide)
  | some k =>
      rw [hm] at hheight
      exact ⟨o, k, height, hlook.mem, ho, hm, hheight.symm, hpos⟩

end Looking

/-- **Looking for a transaction**: there are at most as many looks as polls, and it is found only if one of
them reports it in a block. -/
theorem poll_runs {hash : Json} {n : Nat} {es : List Exchange} {e : Except Fault Json}
    (h : Runs (c.poll hash n) es e) :
    c.Looks hash n es ∧ ∀ mined, e = .ok mined → c.MinedIn hash mined es := by
  induction n generalizing es with
  | zero =>
      obtain ⟨rfl, rfl⟩ := h.fail_inv
      exact ⟨.nil hash 0, fun mined he => by cases he⟩
  | succ n ih =>
      rcases h.bind_inv with ⟨fault, rfl, h₁⟩ | ⟨tx, look, es, rfl, h₁, h₂⟩
      · obtain ⟨o, ho, -⟩ := request_runs h₁
        exact ⟨.once ho, fun mined he => by cases he⟩
      obtain ⟨o, ho, -, htx⟩ := request_runs h₁
      rcases (silent_get tx (.int (-1)) "block_height").bind_inv h₂ with ⟨rfl, fault, rfl⟩ | ⟨v, hv, h₃⟩
      · rw [List.append_nil]
        exact ⟨.once ho, fun mined he => by cases he⟩
      rcases (silent_toInt v).bind_inv h₃ with ⟨rfl, fault, rfl⟩ | ⟨height, hheight, h₄⟩
      · rw [List.append_nil]
        exact ⟨.once ho, fun mined he => by cases he⟩
      split at h₄
      · next hpos =>
          obtain ⟨rfl, rfl⟩ := h₄.done_inv
          rw [List.append_nil]
          obtain ⟨members, rfl, rfl⟩ := (get_runs hv).2 v rfl
          refine ⟨.once ho, fun mined he => ?_⟩
          cases he
          exact .of_height ho (conclusion_eq_ok_iff.1 htx.symm) (toInt_runs hheight).2 hpos
      · cases h₄ with
        | tell h₄ =>
            obtain ⟨hlooks, hmined⟩ := ih h₄
            exact ⟨hlooks.cons ho, fun mined he => (hmined mined he).behind look⟩

/-! ### A submission -/

variable (c s) in
/-- How far a run of a submission comes, with its exchanges and its end: before posting, without a hash,
without being mined, or to what `finish` does. -/
inductive Course (finish : Json → Json → Json → Dialogue α) : List Exchange → Except Fault α → Prop
  | unposted {es f} : c.Preparing s es → Course finish es (.error f)
  | unhashed {before payload seed o f} : c.Prepared s payload before →
      Transaction.seedOfSecret c.keypair.secretKey = .ok seed →
      Course finish (before ++ [(c.postRequest (c.signed seed payload), o)]) (.error f)
  | unmined {before payload seed o hash looks f} : c.Prepared s payload before →
      Transaction.seedOfSecret c.keypair.secretKey = .ok seed → Hashed (c.signed seed payload) o hash →
      c.Looks hash c.pollAttempts.toNat looks →
      Course finish (before ++ (c.postRequest (c.signed seed payload), o) :: looks) (.error f)
  | mined {before payload seed o hash looks res mined last e} : c.Prepared s payload before →
      Transaction.seedOfSecret c.keypair.secretKey = .ok seed → Hashed (c.signed seed payload) o hash →
      c.Looks hash c.pollAttempts.toNat looks → c.MinedIn hash mined looks → Runs (finish res hash mined) last e →
      Course finish (before ++ (c.postRequest (c.signed seed payload), o) :: (looks ++ last)) e

/-- From posting on, a run takes its course. -/
theorem posting_runs {finish : Json → Json → Json → Dialogue α} {before es : List Exchange} {e : Except Fault α}
    {res tx : Json} (hpreparing : c.Preparing s before)
    (hprepared : ∀ text payload, tx.text? = some text → Encoded.decode text = .ok payload →
      c.Prepared s payload before)
    (h : Runs (c.postSigned tx >>= fun hash => c.waitForTransaction hash >>= finish res hash) es e) :
    Course c s finish (before ++ es) e := by
  rcases h.bind_inv with ⟨f, rfl, hpost⟩ | ⟨hash, es₁, es₂, rfl, hpost, hwait⟩
  · rcases postSigned_runs hpost with ⟨rfl, -⟩ | ⟨text, payload, seed, o, htext, hpayload, hseed, rfl, -⟩
    · rw [List.append_nil]
      exact .unposted hpreparing
    · exact .unhashed (hprepared text payload htext hpayload) hseed
  -- a hash is there, so that the transaction was posted
  rcases postSigned_runs hpost with ⟨-, f, hcontra⟩ | ⟨text, payload, seed, o, htext, hpayload, hseed, rfl, hhash⟩
  · cases hcontra
  have hbefore := hprepared text payload htext hpayload
  rcases hwait.bind_inv with ⟨f, rfl, hpoll⟩ | ⟨mined, looks, last, rfl, hpoll, hfinish⟩
  · exact .unmined hbefore hseed (hhash hash rfl) (poll_runs hpoll).1
  obtain ⟨hlooks, hmined⟩ := poll_runs hpoll
  rw [List.singleton_append]
  exact .mined hbefore hseed (hhash hash rfl) hlooks (hmined mined rfl) hfinish

/-- **The exchanges of a submission**: every run takes its course. -/
theorem submit_runs {finish : Json → Json → Json → Dialogue α} {es : List Exchange} {e : Except Fault α}
    (h : Runs (c.submit s finish) es e) : Course c s finish es e := by
  -- a step that fails ends the run before anything is posted, any other gives what the next one asks for
  rcases h.bind_inv with ⟨f, rfl, h₁⟩ | ⟨calldata, encoding, es₁, rfl, h₁, hn₁⟩
  · exact .unposted ⟨.null, 0, 0, es, [], [], [], by simp, (encodeCalldata_runs h₁).1, .nil, .nil, .nil⟩
  obtain ⟨hencoding, hencodes⟩ := encodeCalldata_runs h₁
  rcases hn₁.bind_inv with ⟨f, rfl, h₂⟩ | ⟨ttl, height, es₂, rfl, h₂, hn₂⟩
  · exact .unposted ⟨.null, 0, 0, encoding, es₁, [], [], by simp, hencoding, (absoluteTtl_runs h₂).1, .nil, .nil⟩
  obtain ⟨hheight, hlimits⟩ := absoluteTtl_runs h₂
  rcases hn₂.bind_inv with ⟨f, rfl, h₃⟩ | ⟨nonce, account, es₃, rfl, h₃, hn₃⟩
  · exact .unposted ⟨.null, 0, 0, encoding, height, es₂, [], by simp, hencoding, hheight, (nextNonce_runs h₃).1,
      .nil⟩
  obtain ⟨haccount, hnumbers⟩ := nextNonce_runs h₃
  rcases hn₃.bind_inv with ⟨f, rfl, h₄⟩ | ⟨res, building, es₄, rfl, h₄, hn₄⟩
  · obtain ⟨o, ho, -⟩ := request_runs h₄
    exact .unposted ⟨calldata, ttl, nonce, encoding, height, account, es₃, by simp, hencoding, hheight, haccount,
      ho.asks⟩
  obtain ⟨o, ho, -, hres⟩ := request_runs h₄
  have hpreparing : c.Preparing s (encoding ++ height ++ account ++ building) :=
    ⟨calldata, ttl, nonce, encoding, height, account, building, rfl, hencoding, hheight, haccount, ho.asks⟩
  rcases hn₄.bind_inv with ⟨f, rfl, h₅⟩ | ⟨tx, es₅, es₆, rfl, h₅, hn₅⟩
  · rw [(item_runs h₅).1, List.append_nil, ← List.append_assoc, ← List.append_assoc]
    exact .unposted hpreparing
  obtain ⟨rfl, htx⟩ := item_runs h₅
  have hbuilds : c.Builds s ttl nonce calldata tx building :=
    ⟨o, ho, res, conclusion_eq_ok_iff.1 hres.symm, htx tx rfl⟩
  rw [List.nil_append, ← List.append_assoc, ← List.append_assoc, ← List.append_assoc]
  refine posting_runs hpreparing (fun text payload htext hpayload => ?_) hn₅
  exact ⟨calldata, ttl, nonce, tx, text, encoding, height, account, building, rfl, hencodes calldata rfl,
    hlimits ttl rfl, hnumbers nonce rfl, hbuilds, htext, hpayload⟩

/-! ### Reading what a submission gave -/

/-- What is known about the call of a transaction. -/
theorem callInfo_runs {hash : Json} {es : List Exchange} {e : Except Fault Json}
    (h : Runs (c.callInfo hash) es e) :
    ∃ o, Tries (c.infoRequest hash) o es ∧ ∀ info, e = .ok info → ∃ members, o.Gives (.object members) ∧
      info = (Json.lookup? members "call_info").getD (.object members) := by
  obtain ⟨o, ho, hread⟩ := asked_runs (fun res => silent_get res res "call_info") h
  refine ⟨o, ho, fun info he => ?_⟩
  obtain ⟨res, hres, hget⟩ := hread info he
  obtain ⟨members, rfl, hinfo⟩ := (get_runs hget).2 info rfl
  exact ⟨members, hres, hinfo⟩

/-- The exchanges tell that a call went well: its return type is missing or `ok`. -/
def WentWell (hash : Json) (es : List Exchange) : Prop :=
  ∃ o members info, (c.infoRequest hash, o) ∈ es ∧ o.Gives (.object members) ∧
    (Json.lookup? members "call_info").getD (.object members) = .object info ∧
    (Json.lookup? info "return_type" = none ∨ Json.lookup? info "return_type" = some (.text "ok"))

theorem deployed_runs {res hash mined : Json} {es : List Exchange} {e : Except Fault DeployedHandle}
    (h : Runs (c.deployed res hash mined) es e) :
    es = [] ∧ ∀ handle, e = .ok handle → handle.transaction = hash := by
  rcases h.bind_inv with ⟨f, rfl, h₁⟩ | ⟨address, es₁, es₂, rfl, h₁, h₂⟩
  · exact ⟨(item_runs h₁).1, fun handle he => by cases he⟩
  · obtain ⟨rfl, rfl⟩ := h₂.done_inv
    rw [(item_runs h₁).1]
    refine ⟨rfl, fun handle he => ?_⟩
    cases he
    rfl

/-- A return type that is read as `ok` is missing or `ok`. -/
theorem wentWell_of_shown {hash : Json} {es : List Exchange} {o : Outcome} {members info : List (LooseText × Json)}
    (hmem : (c.infoRequest hash, o) ∈ es) (ho : o.Gives (.object members))
    (hinfo : (Json.lookup? members "call_info").getD (.object members) = .object info)
    (hok : ((Json.lookup? info "return_type").getD (.text "ok")).shown = "ok") : c.WentWell hash es := by
  refine ⟨o, members, info, hmem, ho, hinfo, ?_⟩
  have hword := Json.eq_text_of_shown hok
  cases ht : Json.lookup? info "return_type" with
  | none => exact .inl rfl
  | some t =>
      rw [ht, Option.getD_some] at hword
      exact .inr (by rw [hword])

theorem called_runs {r : CallRequest} {hash : Json} {es : List Exchange} {e : Except Fault CallResult}
    (h : Runs (c.called r hash) es e) :
    Asks (c.infoRequest hash) es ∧ ∀ result, e = .ok result →
      c.WentWell hash es ∧ result.details.get "tx_hash" = .ok (some (Value.ofJson hash)) := by
  rcases h.bind_inv with ⟨f, rfl, h₁⟩ | ⟨info, es, es', rfl, h₁, hn₁⟩
  · obtain ⟨o, ho, -⟩ := callInfo_runs h₁
    exact ⟨ho.asks, fun result he => by cases he⟩
  obtain ⟨o, ho, hinfo⟩ := callInfo_runs h₁
  -- what is read of the answer sends nothing more
  have hnothing : ∀ f : Fault, Asks (c.infoRequest hash) (es ++ []) ∧ ∀ result : CallResult, Except.error f = .ok result →
      c.WentWell hash (es ++ []) ∧ result.details.get "tx_hash" = .ok (some (Value.ofJson hash)) := fun f => by
    rw [List.append_nil]
    exact ⟨ho.asks, fun result he => by cases he⟩
  rcases (silent_get info (.text "ok") "return_type").bind_inv hn₁ with ⟨rfl, f, rfl⟩ | ⟨returnType, htype, hn₂⟩
  · exact hnothing f
  rcases (silent_get info (.text "") "return_value").bind_inv hn₂ with ⟨rfl, f, rfl⟩ | ⟨returnValue, -, hn₃⟩
  · exact hnothing f
  dsimp only at hn₃
  split at hn₃
  · obtain ⟨rfl, rfl⟩ := hn₃.fail_inv
    exact hnothing _
  · next hok =>
      rcases (silent_get info (.int 0) "gas_used").bind_inv hn₃ with ⟨rfl, f, rfl⟩ | ⟨v, -, hn₄⟩
      · exact hnothing f
      rcases (silent_toInt v).bind_inv hn₄ with ⟨rfl, f, rfl⟩ | ⟨used, -, hn₅⟩
      · exact hnothing f
      obtain ⟨rfl, rfl⟩ := hn₅.done_inv
      rw [List.append_nil]
      refine ⟨ho.asks, fun result he => ⟨?_, ?_⟩⟩
      · obtain ⟨members, hres, rfl⟩ := hinfo info rfl
        obtain ⟨entries, hentries, rfl⟩ := (get_runs htype).2 returnType rfl
        exact c.wentWell_of_shown ho.mem hres hentries (Decidable.not_not.1 hok)
      · cases he
        rfl

end NodeClient

end SophiaBind
