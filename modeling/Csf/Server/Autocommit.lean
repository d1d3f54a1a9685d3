import Csf.Server.Effect

/-!
# A session alone on the server: transactions and autocommit agree

A session that nobody else is served beside (`Csf.Server.converse`) works on the
store it shows its client as if there were no transactions
(`Csf.Server.run_work_of_good`): a `BEGIN` and a `COMMIT` that are answered by an
`OK` change nothing in it, and any other request does what it does to a store.
Sending the same requests without the `BEGIN`s and `COMMIT`s therefore gets the same
responses and ends with the same stack and the same tables
(`Csf.Server.transactions_agree_with_autocommit`).
-/

namespace Csf

namespace Server

variable {β : Type}

/-- The lines written since the connection was `c`. -/
def ClientConnection.answer (c c' : ClientConnection β) : List Str :=
  c'.written.drop c.written.length

/-- A request and the lines written while it was served. -/
abbrev Exchange := Message × List Str

/-- **A session alone**: requests are served one after the other, each without
interruption, until `chat_with_client` returns. There is no result where the session
would have to wait or takes the process down. -/
def converse (E : Env β) (s : SessionId) : List Message → ClientConnection β → Tables β →
    Option (List Exchange × ClientConnection β × Tables β)
  | [], c, σ => some ([], c, σ)
  | req :: reqs, c, σ =>
      match (serve E req).run s c σ with
      | some ((.ok .again, c'), σ') =>
          (converse E s reqs c' σ').map fun (log, last) => ((req, c.answer c') :: log, last)
      | some ((.ok .done, c'), σ') => some ([(req, c.answer c')], c', σ')
      | _ => none

/-- The request is answered by an `OK` or a `DATA`, and by nothing else. -/
def Exchange.Good (x : Exchange) : Prop := ∃ line, x.2 = [line] ∧ isGood line = true

/-- Whether a request neither begins nor ends a transaction. -/
def Message.isWork (req : Message) : Bool :=
  req.messageType != .begin && req.messageType != .commit

/-- Every `BEGIN` is closed by a `COMMIT` that comes later. -/
def Closed : List Message → Prop
  | [] => True
  | req :: reqs =>
      (req.messageType = .begin → ∃ r ∈ reqs, r.messageType = .commit) ∧ Closed reqs

/-! ### The invariant of a session alone -/

/-- Every lock is free. -/
def Tables.Free (σ : Tables β) : Prop := ∀ t, (σ.table t).holder = none

/-- **A session alone**, between two requests. -/
structure Alone (c : ClientConnection β) (σ : Tables β) : Prop where
  /-- No table has temporary changes. -/
  clean : σ.Clean
  /-- Whatever is locked is locked for the session's transaction. -/
  available : ∀ t, Available c σ t
  /-- What is buffered is locked. -/
  covered : c.Covered σ.created
  /-- Nothing is locked outside of transactions. -/
  free : c.inTransaction = false → σ.Free
  /-- Nothing is buffered outside of transactions. -/
  buffer : c.inTransaction = false → c.transactionBuffer = ∅

/-- The store a session shows over what is committed. -/
def ClientConnection.view (c : ClientConnection β) (σ : Tables β) : Store β :=
  c.shows σ.created σ.values

theorem Tables.values_congr {σ σ' : Tables β} (h : σ'.table = σ.table) : σ'.values = σ.values := by
  funext t k
  rw [Tables.values, Tables.values, h]

section Steps

variable {E : Env β} {s : SessionId} {c c' : ClientConnection β} {σ σ' : Tables β} {req : Message}
  {line : Str} {next : Next}

/-- A fresh session on tables that are clean and free. -/
theorem alone_start (hclean : σ.Clean) (hfree : σ.Free) : Alone ({} : ClientConnection β) σ where
  clean := hclean
  available t := Or.inr (hfree t)
  covered t m hm := absurd hm (by simp)
  free _ := hfree
  buffer _ := rfl

theorem answer_of_written {lines : List Str} (h : c'.written = c.written ++ lines) :
    c.answer c' = lines := by
  rw [ClientConnection.answer, h, List.drop_left]

/-- What is refused is not answered well. -/
theorem Refused.not_good (h : Refused c σ ((serve E req).run s c σ))
    (hrun : (serve E req).run s c σ = some ((.ok next, c'), σ'))
    (hw : c.answer c' = [line]) : isGood line = false := by
  obtain ⟨-, lines, hlines, hbad⟩ := h _ c' σ' hrun
  rw [answer_of_written hlines] at hw
  exact hbad line (hw ▸ List.mem_cons_self)

/-- Serving has one outcome. -/
theorem Answered.unique {c'' : ClientConnection β} {σ'' : Tables β}
    (h : Answered E s req c σ line c' σ')
    (hrun : (serve E req).run s c σ = some ((.ok next, c''), σ'')) :
    next = nextOf req ∧ c'' = c' ∧ σ'' = σ' := by
  obtain ⟨h', rfl⟩ := Prod.mk.inj (Option.some.inj (hrun.symm.trans h.run))
  obtain ⟨hnext, rfl⟩ := Prod.mk.inj h'
  exact ⟨Except.ok.inj hnext, rfl, rfl⟩

/-- What keeps the transaction and the tables keeps the invariant, if there is no
table less. -/
theorem Alone.of_sameTxn (h : Alone c σ) (hsame : SameTxn c c') (hσ : σ'.table = σ.table)
    (hcreated : ∀ t, σ.created t = true → σ'.created t = true) : Alone c' σ' where
  clean t := by
    rw [hσ]
    exact h.clean t
  available t := by
    rw [Available, hsame.lockedTables, hσ]
    exact h.available t
  covered t m hm := by
    rw [hsame.transactionBuffer] at hm
    rw [hsame.lockedTables]
    exact ⟨hcreated t (h.covered t m hm).1, (h.covered t m hm).2⟩
  free hin t := by
    rw [hσ]
    exact h.free (hsame.inTransaction.symm.trans hin) t
  buffer hin := hsame.transactionBuffer.trans (h.buffer (hsame.inTransaction.symm.trans hin))

/-- It is alone after a `SET` or a `GET` outside of transactions. -/
theorem Alone.of_auto {t : Str} (h : Alone c σ) (hin : c.inTransaction = false)
    (hsame : SameTxn c c') (hclean : σ'.Clean)
    (hholder : ∀ u, (σ'.table u).holder = if u = t then none else (σ.table u).holder) :
    Alone c' σ' := by
  have hfree : σ'.Free := fun u => by
    rw [hholder u, h.free hin u, ite_self]
  have hbuf : c'.transactionBuffer = ∅ := hsame.transactionBuffer.trans (h.buffer hin)
  refine ⟨hclean, fun u => Or.inr (hfree u), fun u m hm => ?_, fun _ => hfree, fun _ => hbuf⟩
  rw [hbuf] at hm
  exact absurd hm (by simp)

/-- It is alone after a `SET` or a `GET` in a transaction. -/
theorem Alone.of_secured {t : Str} (h : Alone c σ) (hcreated : σ.created t = true)
    (hadv : Advances t c c') : Alone c' (σ.secured s c t) := by
  refine ⟨fun u => (secured_tempData _ u).trans (h.clean u),
    fun u => hadv.available (h.available u), ?_, fun hin => ?_, fun hin => ?_⟩
  · rw [secured_created]
    exact hadv.covered h.covered hcreated
  · exact absurd (hin.symm.trans hadv.inTransaction) (by simp)
  · exact absurd (hin.symm.trans hadv.inTransaction) (by simp)

/-- **A request served alone** is answered as it should be to the store the session
shows, or refused – in a transaction or not. -/
theorem run_work (h : Alone c σ) (hwork : req.isWork = true) :
    match perform E req (c.view σ) with
    | some (line, x) => ∃ c' σ', Answered E s req c σ line c' σ' ∧ c'.view σ' = x ∧
        Alone c' σ' ∧ c'.inTransaction = c.inTransaction
    | none => Refused c σ ((serve E req).run s c σ) := by
  have hends : req.messageType ≠ .begin ∧ req.messageType ≠ .commit := by
    simpa [Message.isWork] using hwork
  by_cases hty : req.messageType = .set ∨ req.messageType = .get
  · cases hin : c.inTransaction
    · have hauto := run_autocommit (E := E) (s := s) hty hin (h.buffer hin) h.clean
        (h.free hin req.getTable)
      rw [ClientConnection.view]
      cases hp : perform E req (c.shows σ.created σ.values) with
      | none =>
        rw [hp] at hauto
        exact hauto
      | some out =>
        rw [hp] at hauto
        obtain ⟨c', σ', hans, hx, hsame, hclean, hholder⟩ := hauto
        exact ⟨c', σ', hans, hx, h.of_auto hin hsame hclean hholder,
          hsame.inTransaction.trans hin⟩
    · obtain ⟨hans, href⟩ := run_inTransaction (E := E) (s := s) (V := σ.values) hty hin
        (h.clean req.getTable) fun _ => rfl
      rw [ClientConnection.view]
      cases hp : perform E req (c.shows σ.created σ.values) with
      | none => exact href (Or.inl hp)
      | some out =>
        obtain ⟨hcreated, c', hans, hx, hadv⟩ := hans _ _ hp (h.available req.getTable)
        refine ⟨c', _, hans, ?_, h.of_secured hcreated hadv, hadv.inTransaction⟩
        rw [ClientConnection.view, secured_created, (frame_secured _).values]
        exact hx
  · obtain ⟨hset, hget⟩ := not_or.mp hty
    have hplain := run_plain (E := E) (s := s) (c := c) (σ := σ) σ.values hset hget hends.1 hends.2
    rw [ClientConnection.view]
    cases hp : perform E req (c.shows σ.created σ.values) with
    | none =>
      rw [hp] at hplain
      exact hplain
    | some out =>
      rw [hp] at hplain
      obtain ⟨c', σ', hrun, hw, hx, hsame, hσ⟩ := hplain
      refine ⟨c', σ', ⟨hrun, hw⟩, ?_, h.of_sameTxn hsame hσ ?_, hsame.inTransaction⟩
      · rw [ClientConnection.view, Tables.values_congr hσ]
        exact hx
      · intro t ht
        have hmono := created_mono hp ht
        rwa [← hx] at hmono

/-- **A `BEGIN` or a `COMMIT` that is answered well** changes nothing in the store
the session shows. -/
theorem run_ends (h : Alone c σ) (hends : req.isWork = false)
    (hrun : (serve E req).run s c σ = some ((.ok next, c'), σ'))
    (hw : c.answer c' = [line]) (hgood : isGood line = true) :
    c'.view σ' = c.view σ ∧ Alone c' σ' ∧ next = nextOf req ∧
      (c'.inTransaction = true ↔ req.messageType = .begin) := by
  -- what is refused is not answered well
  have hnot : ¬Refused c σ ((serve E req).run s c σ) := fun href =>
    absurd (href.not_good hrun hw) (by simp [hgood])
  have hadm : Admitted req c := by
    rcases admitted_or_refused (E := E) (s := s) (c := c) (σ := σ) req σ.created
      σ.values with ⟨hadm, -⟩ | ⟨-, href⟩
    · exact hadm
    · exact absurd href hnot
  have hty : req.messageType = .begin ∨ req.messageType = .commit := by
    simpa [Message.isWork, or_iff_not_imp_left] using hends
  rcases hty with hty | hty
  · have hh : handlerOf E req = some begin := by rw [handlerOf, hty]
    cases hin : c.inTransaction
    · obtain ⟨rfl, rfl, rfl⟩ :=
        (answered_of_handler hadm hh (run_begin (σ := σ) hin) rfl).unique hrun
      refine ⟨rfl, ⟨h.clean, fun t => Or.inr (h.free hin t), fun t m hm => ?_, ?_, ?_⟩,
        rfl, fun _ => hty, fun _ => rfl⟩
      · have hm' : c.transactionBuffer[t]? = some m := hm
        rw [h.buffer hin] at hm'
        exact absurd hm' (by simp)
      all_goals
        intro hout
        exact absurd hout Bool.noConfusion
    · exact absurd (refused_of_handler hadm hh (refused_begin hin)) hnot
  · have hh : handlerOf E req = some commit := by rw [handlerOf, hty]
    cases hin : c.inTransaction
    · exact absurd (refused_of_handler hadm hh (refused_commit hin)) hnot
    · obtain ⟨rfl, rfl, rfl⟩ :=
        (answered_of_handler hadm hh (run_commit (σ := σ) hin) rfl).unique hrun
      have hcom := committed_commit h.covered
      have hfree : (σ.commit c).Free := fun t => by
        by_cases ht : t ∈ c.lockedTables
        · exact hcom.holder t ht
        · rw [hcom.frame t ht]
          exact (h.available t).resolve_left ht
      refine ⟨?_, ⟨hcom.clean h.clean, fun t => Or.inr (hfree t), fun t m hm => ?_, fun _ => hfree,
        fun _ => rfl⟩, rfl, fun hout => absurd hout Bool.noConfusion,
        fun hty' => absurd (hty.symm.trans hty') (by decide)⟩
      · -- what was shown over the committed values is what they are now
        have hvalue : ∀ t k, ((c.committed.say okLine).buffered t k).or ((σ.commit c).values t k) =
            (c.buffered t k).or (σ.values t k) := fun t k => by
          rw [buffered_of_empty rfl, Option.none_or, hcom.values h.clean]
        have hshows : (c.committed.say okLine).view (σ.commit c) = { c.view σ with
            created := (σ.commit c).created
            value := fun t k => ((c.committed.say okLine).buffered t k).or
              ((σ.commit c).values t k) } := rfl
        rw [hshows, hcom.created, funext fun t => funext (hvalue t)]
        rfl
      · exact absurd hm (by simp [ClientConnection.say, ClientConnection.committed])

/-- **A request other than a `BEGIN` or a `COMMIT` that is answered well** is
performed on the store the session shows, and so it is by any session that shows the
same store. -/
theorem run_work_of_good (h : Alone c σ) (hwork : req.isWork = true)
    (hrun : (serve E req).run s c σ = some ((.ok next, c'), σ'))
    (hw : c.answer c' = [line]) (hgood : isGood line = true) :
    next = nextOf req ∧ Alone c' σ' ∧ c'.inTransaction = c.inTransaction ∧
      ∀ {d : ClientConnection β} {τ : Tables β}, Alone d τ → d.view τ = c.view σ →
        ∃ d' τ', (serve E req).run s d τ = some ((.ok next, d'), τ') ∧ d.answer d' = [line] ∧
          d'.view τ' = c'.view σ' ∧ Alone d' τ' ∧ d'.inTransaction = d.inTransaction := by
  have hstep := run_work (E := E) (s := s) h hwork
  cases hp : perform E req (c.view σ) with
  | none =>
    rw [hp] at hstep
    exact absurd (hstep.not_good hrun hw) (by simp [hgood])
  | some out =>
    rw [hp] at hstep
    obtain ⟨c₁, σ₁, hans, hx, hA, hin⟩ := hstep
    obtain ⟨rfl, rfl, rfl⟩ := hans.unique hrun
    obtain rfl : out.1 = line :=
      List.singleton_inj.mp ((answer_of_written hans.written).symm.trans hw)
    refine ⟨rfl, hA, hin, fun {d τ} hd hview => ?_⟩
    have hstep' := run_work (E := E) (s := s) hd hwork
    rw [hview, hp] at hstep'
    obtain ⟨d', τ', hans', hx', hA', hin'⟩ := hstep'
    exact ⟨d', τ', hans'.run, answer_of_written hans'.written, hx'.trans hx.symm, hA', hin'⟩

end Steps

/-! ### Whole sessions -/

section Sessions

variable {E : Env β} {s : SessionId}

theorem converse_again {req : Message} {reqs : List Message} {c c₁ : ClientConnection β}
    {σ σ₁ : Tables β} {log : List Exchange} {last : ClientConnection β × Tables β}
    (hrun : (serve E req).run s c σ = some ((.ok .again, c₁), σ₁))
    (hrest : converse E s reqs c₁ σ₁ = some (log, last)) :
    converse E s (req :: reqs) c σ = some ((req, c.answer c₁) :: log, last) := by
  rw [converse, hrun]
  dsimp only
  rw [hrest]
  rfl

theorem converse_done {req : Message} {reqs : List Message} {c c₁ : ClientConnection β}
    {σ σ₁ : Tables β} (hrun : (serve E req).run s c σ = some ((.ok .done, c₁), σ₁)) :
    converse E s (req :: reqs) c σ = some ([(req, c.answer c₁)], c₁, σ₁) := by
  rw [converse, hrun]

/-- **What a session that goes on has done first.** -/
theorem converse_cons {req : Message} {reqs : List Message} {c c' : ClientConnection β}
    {σ σ' : Tables β} {log : List Exchange}
    (h : converse E s (req :: reqs) c σ = some (log, c', σ')) :
    (∃ c₁ σ₁ log', (serve E req).run s c σ = some ((.ok .again, c₁), σ₁) ∧
      converse E s reqs c₁ σ₁ = some (log', c', σ') ∧ log = (req, c.answer c₁) :: log') ∨
    (serve E req).run s c σ = some ((.ok .done, c'), σ') ∧ log = [(req, c.answer c')] := by
  rw [converse] at h
  split at h
  · rename_i c₁ σ₁ hrun
    obtain ⟨⟨log', last⟩, hlast, he⟩ := Option.map_eq_some_iff.mp h
    obtain ⟨rfl, rfl⟩ := Prod.mk.inj he
    exact Or.inl ⟨c₁, σ₁, log', hrun, hlast, rfl⟩
  · rename_i c₁ σ₁ hrun
    obtain ⟨rfl, hlast⟩ := Prod.mk.inj (Option.some.inj h)
    obtain ⟨rfl, rfl⟩ := Prod.mk.inj hlast
    exact Or.inr ⟨hrun, rfl⟩
  · exact nomatch h

/-- **Two sessions that show the same store**, one with transactions and one without:
they get the same responses and go on showing the same store. -/
theorem converse_work {reqs : List Message} {c c' d : ClientConnection β} {σ σ' τ : Tables β}
    {log : List Exchange} (hc : Alone c σ) (hd : Alone d τ) (hdin : d.inTransaction = false)
    (hview : d.view τ = c.view σ) (h : converse E s reqs c σ = some (log, c', σ'))
    (hserved : log.map Prod.fst = reqs) (hgood : ∀ x ∈ log, x.Good) :
    Alone c' σ' ∧ ∃ d' τ', converse E s (reqs.filter Message.isWork) d τ =
        some (log.filter (·.1.isWork), d', τ') ∧
      Alone d' τ' ∧ d'.inTransaction = false ∧ d'.view τ' = c'.view σ' := by
  induction reqs generalizing c d σ τ log with
  | nil =>
    obtain ⟨rfl, hlast⟩ := Prod.mk.inj (Option.some.inj h)
    obtain ⟨rfl, rfl⟩ := Prod.mk.inj hlast
    exact ⟨hc, d, τ, rfl, hd, hdin, hview⟩
  | cons req reqs ih =>
    rcases converse_cons h with ⟨c₁, σ₁, log', hrun, hrest, rfl⟩ | ⟨hrun, rfl⟩
    · obtain ⟨hx, hgood'⟩ := List.forall_mem_cons.mp hgood
      obtain ⟨line, hw, hline⟩ := hx
      have hserved' : log'.map Prod.fst = reqs := (List.cons.inj hserved).2
      cases hwork : req.isWork
      · -- a `BEGIN` or a `COMMIT` is not sent by the other session
        obtain ⟨hsame, hc₁, -⟩ := run_ends hc hwork hrun hw hline
        obtain ⟨hc', d', τ', hrest', hd'⟩ :=
          ih hc₁ hd hdin (hview.trans hsame.symm) hrest hserved' hgood'
        refine ⟨hc', d', τ', ?_, hd'⟩
        rw [List.filter_cons_of_neg (by simp [hwork]), List.filter_cons_of_neg (by simp [hwork])]
        exact hrest'
      · obtain ⟨-, hc₁, -, hother⟩ := run_work_of_good hc hwork hrun hw hline
        obtain ⟨d₁, τ₁, hrun', hw', hview₁, hd₁, hdin₁⟩ := hother hd hview
        obtain ⟨hc', d', τ', hrest', hd'⟩ :=
          ih hc₁ hd₁ (hdin₁.trans hdin) hview₁ hrest hserved' hgood'
        refine ⟨hc', d', τ', ?_, hd'⟩
        simp only [List.filter_cons, hwork, if_true]
        rw [converse_again hrun' hrest', hw', ← hw]
    · -- the session has ended with this request
      obtain ⟨line, hw, hline⟩ := hgood _ List.mem_cons_self
      obtain rfl : reqs = [] := (List.cons.inj hserved).2.symm
      cases hwork : req.isWork
      · obtain ⟨hsame, hc₁, -⟩ := run_ends hc hwork hrun hw hline
        refine ⟨hc₁, d, τ, ?_, hd, hdin, hview.trans hsame.symm⟩
        rw [List.filter_cons_of_neg (by simp [hwork]), List.filter_cons_of_neg (by simp [hwork])]
        rfl
      · obtain ⟨-, hc₁, -, hother⟩ := run_work_of_good hc hwork hrun hw hline
        obtain ⟨d₁, τ₁, hrun', hw', hview₁, hd₁, hdin₁⟩ := hother hd hview
        refine ⟨hc₁, d₁, τ₁, ?_, hd₁, hdin₁.trans hdin, hview₁⟩
        simp only [List.filter_cons, hwork, if_true]
        rw [converse_done hrun', hw', ← hw]
        rfl

/-- **Where every `BEGIN` is closed**, no transaction is open in the end. -/
theorem inTransaction_of_closed {reqs : List Message} {c c' : ClientConnection β}
    {σ σ' : Tables β} {log : List Exchange} (hc : Alone c σ)
    (h : converse E s reqs c σ = some (log, c', σ')) (hserved : log.map Prod.fst = reqs)
    (hgood : ∀ x ∈ log, x.Good) (hclosed : Closed reqs)
    (hopen : c.inTransaction = true → ∃ r ∈ reqs, r.messageType = .commit) :
    c'.inTransaction = false := by
  induction reqs generalizing c σ log with
  | nil =>
    obtain ⟨rfl, hlast⟩ := Prod.mk.inj (Option.some.inj h)
    obtain ⟨rfl, rfl⟩ := Prod.mk.inj hlast
    exact Bool.eq_false_iff.mpr fun hin => by simpa using hopen hin
  | cons req reqs ih =>
    -- a transaction that is open after the request is closed later on
    have hlater : ∀ {c₁ : ClientConnection β} {σ₁ : Tables β} {next : Next} {line : Str},
        (serve E req).run s c σ = some ((.ok next, c₁), σ₁) → c.answer c₁ = [line] →
        isGood line = true → c₁.inTransaction = true →
        ∃ r ∈ reqs, r.messageType = .commit := by
      intro c₁ σ₁ next line hrun hw hline hin
      cases hwork : req.isWork
      · obtain ⟨-, -, -, hbegin⟩ := run_ends hc hwork hrun hw hline
        exact hclosed.1 (hbegin.mp hin)
      · obtain ⟨-, -, hsame, -⟩ := run_work_of_good hc hwork hrun hw hline
        obtain ⟨r, hr, hty⟩ := hopen (hsame.symm.trans hin)
        rcases List.mem_cons.mp hr with rfl | hr
        · simp [Message.isWork, hty] at hwork
        · exact ⟨r, hr, hty⟩
    rcases converse_cons h with ⟨c₁, σ₁, log', hrun, hrest, rfl⟩ | ⟨hrun, rfl⟩
    · obtain ⟨⟨line, hw, hline⟩, hgood'⟩ := List.forall_mem_cons.mp hgood
      have hc₁ : Alone c₁ σ₁ := by
        cases hwork : req.isWork
        · exact (run_ends hc hwork hrun hw hline).2.1
        · exact (run_work_of_good hc hwork hrun hw hline).2.1
      exact ih hc₁ hrest (List.cons.inj hserved).2 hgood' hclosed.2 (hlater hrun hw hline)
    · obtain ⟨line, hw, hline⟩ := hgood _ List.mem_cons_self
      obtain rfl : reqs = [] := (List.cons.inj hserved).2.symm
      exact Bool.eq_false_iff.mpr fun hin => by simpa using hlater hrun hw hline hin

/-- **Transactions and autocommit agree** for a session that is alone on the server.
If every request is answered by an `OK` or a `DATA` and every `BEGIN` is closed by a
`COMMIT`, then without the `BEGIN`s and `COMMIT`s every other request gets the same
response, and the stack and what the tables hold are the same in the end, with no
temporary changes and all locks free. -/
theorem transactions_agree_with_autocommit {reqs : List Message} {σ σ' : Tables β}
    {c' : ClientConnection β} {log : List Exchange} (hclean : σ.Clean) (hfree : σ.Free)
    (hclosed : Closed reqs) (h : converse E s reqs {} σ = some (log, c', σ'))
    (hserved : log.map Prod.fst = reqs) (hgood : ∀ x ∈ log, x.Good) :
    ∃ d' τ', converse E s (reqs.filter Message.isWork) {} σ =
        some (log.filter (·.1.isWork), d', τ') ∧
      d'.stack = c'.stack ∧ τ'.created = σ'.created ∧
      (∀ t, (τ'.table t).data = (σ'.table t).data) ∧
      σ'.Clean ∧ σ'.Free ∧ τ'.Clean ∧ τ'.Free := by
  have hA := alone_start hclean hfree
  obtain ⟨hc', d', τ', hrun, hd', hdin, hview⟩ :=
    converse_work hA hA rfl rfl h hserved hgood
  have hcin := inTransaction_of_closed hA h hserved hgood hclosed nofun
  refine ⟨d', τ', hrun, congrArg Store.stack hview, congrArg Store.created hview, fun t => ?_,
    hc'.clean, hc'.free hcin, hd'.clean, hd'.free hdin⟩
  -- with nothing buffered on either side, what is shown is what is committed
  refine Std.ExtTreeMap.ext_getElem? fun k => ?_
  have hvalue := congrFun (congrFun (congrArg Store.value hview) t) k
  rwa [ClientConnection.view, ClientConnection.view, shows_value_of_empty (hd'.buffer hdin),
    shows_value_of_empty (hc'.buffer hcin)] at hvalue

/-- Tables with an empty one of the name `t`. -/
def oneTable : Tables Str where
  created name := name == ['t']
  table _ := {}

/-- A session that stores a value, reads it and commits. -/
def storeAndRead : List Message :=
  [⟨.login, ["alice".toList]⟩, ⟨.push, [['1']]⟩, ⟨.begin, []⟩, ⟨.set, [['t'], ['k']]⟩,
    ⟨.get, [['t'], ['k']]⟩, ⟨.commit, []⟩, ⟨.top, []⟩, ⟨.bye, []⟩]

/-- The session that stores and reads, answered eight times. -/
theorem transactions_agree_with_autocommit_storeAndRead : ∃ log c' σ' d' τ',
    converse (.plain fun _ _ => true) 0 storeAndRead {} oneTable = some (log, c', σ') ∧
      log.map Prod.fst = storeAndRead ∧
      converse (.plain fun _ _ => true) 0 (storeAndRead.filter Message.isWork) {} oneTable =
        some (log.filter (·.1.isWork), d', τ') ∧ d'.stack = c'.stack := by
  have hsome : (converse (.plain fun _ _ => true) 0 storeAndRead {} oneTable).isSome := by
    decide +kernel
  obtain ⟨⟨log, c', σ'⟩, h⟩ := Option.isSome_iff_exists.mp hsome
  have hlog : (converse (.plain fun _ _ => true) 0 storeAndRead {} oneTable).map Prod.fst =
      some (storeAndRead.map fun req =>
        (req, [if req.messageType = .top then "DATA 1\n".toList else okLine])) := by
    decide +kernel
  rw [h] at hlog
  obtain rfl := Option.some.inj hlog
  have hserved : (storeAndRead.map fun req => (req,
      [if req.messageType = .top then "DATA 1\n".toList else okLine])).map Prod.fst =
      storeAndRead := by decide +kernel
  have hgood : ∀ x ∈ storeAndRead.map fun req => (req,
      [if req.messageType = .top then "DATA 1\n".toList else okLine]), Exchange.Good x := by
    intro x hx
    obtain ⟨req, -, rfl⟩ := List.mem_map.mp hx
    refine ⟨_, rfl, ?_⟩
    split <;> decide
  have hclosed : Closed storeAndRead :=
    ⟨nofun, nofun, fun _ => ⟨⟨.commit, []⟩, by decide, rfl⟩, nofun, nofun, nofun, nofun, nofun,
      trivial⟩
  obtain ⟨d', τ', hrun, hstack, -⟩ := transactions_agree_with_autocommit (σ := oneTable)
    (fun _ => rfl) (fun _ => rfl) hclosed h hserved hgood
  exact ⟨_, c', σ', d', τ', h, hserved, hrun, hstack⟩

end Sessions

end Server

end Csf
