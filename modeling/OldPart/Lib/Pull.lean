import OldPart.Lib.Cuts

/-!
# Coroutines that pull chunks

A coroutine that is pushed a stream chunk by chunk is a function of the chunks it has been
pushed so far: run on them it returns, or it is suspended in a pull because it needs one
more, or it has failed.  `Outcome` is what such a run came to, together with the object the
coroutine works on as it stands at that point.  `status` is the coroutine seen from the
side that pushes.

Two runs, on some chunks and on more of them, agree as far as the shorter one got
(`Local`): nothing a coroutine has done depends on the chunks still to come.  `Local` is
closed under the combinators bodies are built from, so that it is proved once for each
primitive.
-/

namespace OldPart

/-- What a run came to.  `ε` are the faults, `β` the elements of the stream and `α` the
object worked on. -/
inductive Outcome (ε β α : Type*) where
  /-- The body returned, standing at a position of the stream. -/
  | done (v : α) (at_ : Cursor β)
  /-- The body is suspended in a pull. -/
  | wait (v : α)
  /-- The body failed. -/
  | fault (v : α) (e : ε)

/-- The same position when more chunks have been pushed. -/
def Cursor.extend {β : Type*} (c : Cursor β) (more : List (List β)) : Cursor β :=
  { c with rest := c.rest ++ more }

namespace Outcome

variable {ε β α γ : Type*}

/-- The object as it stands. -/
def obj : Outcome ε β α → α
  | done v _ => v
  | wait v => v
  | fault v _ => v

/-- Go on with `k` when the first part has returned; `embed` is what a part that has not
returned leaves of the whole object. -/
def andThen (o : Outcome ε β α) (embed : α → γ) (k : α → Cursor β → Outcome ε β γ) :
    Outcome ε β γ :=
  match o with
  | done v c => k v c
  | wait v => wait (embed v)
  | fault v e => fault (embed v) e

/-- The outcome for an object of which this one is a part. -/
def map (f : α → γ) : Outcome ε β α → Outcome ε β γ
  | done v c => done (f v) c
  | wait v => wait (f v)
  | fault v e => fault (f v) e

/-- The same outcome when more chunks have been pushed. -/
def extend (o : Outcome ε β α) (more : List (List β)) : Outcome ε β α :=
  match o with
  | done v c => done v (c.extend more)
  | wait v => wait v
  | fault v e => fault v e

/-- The run is over, or would be whatever is pushed. -/
def Settled : Outcome ε β α → Prop
  | wait _ => False
  | _ => True

/-- The run has failed. -/
def Faulty : Outcome ε β α → Prop
  | fault _ _ => True
  | _ => False

@[simp] lemma andThen_done (v : α) (c : Cursor β) (embed : α → γ)
    (k : α → Cursor β → Outcome ε β γ) : (done v c).andThen embed k = k v c := rfl

@[simp] lemma andThen_wait (v : α) (embed : α → γ) (k : α → Cursor β → Outcome ε β γ) :
    (wait v).andThen embed k = wait (embed v) := rfl

@[simp] lemma andThen_fault (v : α) (e : ε) (embed : α → γ) (k : α → Cursor β → Outcome ε β γ) :
    (fault v e).andThen embed k = fault (embed v) e := rfl

@[simp] lemma map_done (f : α → γ) (v : α) (c : Cursor β) :
    (done v c : Outcome ε β α).map f = done (f v) c := rfl

@[simp] lemma map_wait (f : α → γ) (v : α) : (wait v : Outcome ε β α).map f = wait (f v) := rfl

@[simp] lemma map_fault (f : α → γ) (v : α) (e : ε) :
    (fault v e : Outcome ε β α).map f = fault (f v) e := rfl

@[simp] lemma extend_done (v : α) (c : Cursor β) (more : List (List β)) :
    (done v c : Outcome ε β α).extend more = done v (c.extend more) := rfl

@[simp] lemma extend_fault (v : α) (e : ε) (more : List (List β)) :
    (fault v e : Outcome ε β α).extend more = fault v e := rfl

lemma map_eq_andThen (f : α → γ) (o : Outcome ε β α) :
    o.map f = o.andThen f fun v c => .done (f v) c := by
  cases o <;> rfl

lemma not_settled_wait (v : α) : ¬(wait v : Outcome ε β α).Settled := id

lemma Faulty.settled {o : Outcome ε β α} (h : o.Faulty) : o.Settled := by
  cases o with
  | done v c => exact h.elim
  | wait v => exact h.elim
  | fault v e => trivial

lemma eq_wait_of_not_settled {o : Outcome ε β α} (h : ¬o.Settled) : ∃ v, o = wait v := by
  cases o with
  | done v c => exact (h trivial).elim
  | wait v => exact ⟨v, rfl⟩
  | fault v e => exact (h trivial).elim

end Outcome

/-! ## A run without its object -/

namespace Outcome

variable {ε β α α' γ γ' : Type*}

/-- Where a run got. -/
def bare (o : Outcome ε β α) : Outcome ε β Unit := o.map fun _ => ()

@[simp] lemma bare_done (v : α) (c : Cursor β) : (done v c : Outcome ε β α).bare = done () c := rfl

@[simp] lemma bare_wait (v : α) : (wait v : Outcome ε β α).bare = wait () := rfl

@[simp] lemma bare_fault (v : α) (e : ε) : (fault v e : Outcome ε β α).bare = fault () e := rfl

@[simp] lemma bare_map (f : α → γ) (o : Outcome ε β α) : (o.map f).bare = o.bare := by
  cases o <;> rfl

/-- Two runs get to the same place when their parts do, whatever these hand on. -/
lemma bare_andThen {o : Outcome ε β α} {o' : Outcome ε β α'} {embed : α → γ} {embed' : α' → γ'}
    {k : α → Cursor β → Outcome ε β γ} {k' : α' → Cursor β → Outcome ε β γ'}
    (h : o.bare = o'.bare) (hk : ∀ v v' c, (k v c).bare = (k' v' c).bare) :
    (o.andThen embed k).bare = (o'.andThen embed' k').bare := by
  cases o with
  | done v c =>
    cases o' with
    | done v' c' =>
      obtain rfl : c = c' := (done.inj h).2
      exact hk v v' c
    | wait v' => cases h
    | fault v' e' => cases h
  | wait v =>
    cases o' with
    | done v' c' => cases h
    | wait v' => rfl
    | fault v' e' => cases h
  | fault v e =>
    cases o' with
    | done v' c' => cases h
    | wait v' => cases h
    | fault v' e' =>
      obtain rfl : e = e' := (fault.inj h).2
      rfl

lemma settled_bare {o : Outcome ε β α} : o.bare.Settled ↔ o.Settled := by
  cases o <;> rfl

end Outcome

/-! ## A run is not changed by what is pushed later -/

section Local

variable {ε β α γ : Type*}

/-- A body that has settled settles in the same way when more chunks have been pushed. -/
def Local (body : Cursor β → Outcome ε β α) : Prop :=
  ∀ c more, (body c).Settled → body (c.extend more) = (body c).extend more

lemma Local.done (v : α) : Local (fun c : Cursor β => (.done v c : Outcome ε β α)) :=
  fun _ _ _ => rfl

lemma Local.andThen {body : Cursor β → Outcome ε β α} {embed : α → γ}
    {k : α → Cursor β → Outcome ε β γ} (hbody : Local body) (hk : ∀ v, Local (k v)) :
    Local fun c => (body c).andThen embed k := by
  intro c more hsettled
  have hfirst := hbody c more
  dsimp only at hsettled ⊢
  cases hrun : body c with
  | done v d =>
    rw [hrun] at hfirst hsettled
    rw [hfirst trivial]
    exact hk v d more hsettled
  | wait v =>
    rw [hrun] at hsettled
    exact hsettled.elim
  | fault v e =>
    rw [hrun] at hfirst
    rw [hfirst trivial]
    rfl

lemma Local.map {body : Cursor β → Outcome ε β α} {f : α → γ} (hbody : Local body) :
    Local fun c => (body c).map f := by
  have hmap : (fun c => (body c).map f) = fun c => (body c).andThen f fun v d => .done (f v) d :=
    funext fun c => Outcome.map_eq_andThen f (body c)
  rw [hmap]
  exact hbody.andThen fun v => Local.done (f v)

end Local

/-! ## What a body fails with, and how much it reads -/

namespace Outcome

variable {ε β α γ : Type*} {P : ε → Prop} {n m : ℕ} {c : Cursor β} {o : Outcome ε β α}

/-- A failure is one of which `P` holds. -/
def FailsWith (P : ε → Prop) (o : Outcome ε β α) : Prop := ∀ v e, o = fault v e → P e

lemma failsWith_done (v : α) (c : Cursor β) : (done v c : Outcome ε β α).FailsWith P := by
  intro _ _ h
  cases h

lemma failsWith_wait (v : α) : (wait v : Outcome ε β α).FailsWith P := by
  intro _ _ h
  cases h

lemma failsWith_fault {e : ε} (v : α) (he : P e) : (fault v e : Outcome ε β α).FailsWith P := by
  intro _ _ h
  cases h
  exact he

lemma FailsWith.andThen {embed : α → γ} {k : α → Cursor β → Outcome ε β γ} (h : o.FailsWith P)
    (hk : ∀ v c, (k v c).FailsWith P) : (o.andThen embed k).FailsWith P := by
  cases o with
  | done v c => exact hk v c
  | wait v => exact failsWith_wait _
  | fault v e => exact failsWith_fault _ (h v e rfl)

lemma FailsWith.map {f : α → γ} (h : o.FailsWith P) : (o.map f).FailsWith P := by
  rw [map_eq_andThen]
  exact h.andThen fun v c => failsWith_done _ _

/-- A run that starts at `c` gets past at most `n` elements, unless it fails. -/
def Within (n : ℕ) (c : Cursor β) : Outcome ε β α → Prop
  | done _ d => c.remaining.length ≤ n + d.remaining.length
  | wait _ => c.remaining.length ≤ n
  | fault _ _ => True

lemma Within.mono (h : o.Within n c) (hle : n ≤ m) : o.Within m c := by
  cases o with
  | done v d => exact h.trans (Nat.add_le_add_right hle _)
  | wait v => exact h.trans hle
  | fault v e => trivial

lemma Within.andThen {embed : α → γ} {k : α → Cursor β → Outcome ε β γ} (h : o.Within n c)
    (hk : ∀ v d, o = done v d → (k v d).Within m d) : (o.andThen embed k).Within (n + m) c := by
  cases o with
  | done v d =>
    have hsecond := hk v d rfl
    rw [andThen_done]
    cases hrun : k v d with
    | done w d' =>
      rw [hrun] at hsecond
      simp only [Within] at h hsecond ⊢
      omega
    | wait w =>
      rw [hrun] at hsecond
      simp only [Within] at h hsecond ⊢
      omega
    | fault w e => trivial
  | wait v => exact Nat.le_add_right_of_le h
  | fault v e => trivial

lemma Within.map {f : α → γ} (h : o.Within n c) : (o.map f).Within n c := by
  cases o <;> exact h

end Outcome

/-! ## Empty chunks -/

section Patient

variable {ε β α γ : Type*}

/-- A body that waits either fails on an empty chunk, or waits behind any number of them. -/
def Patient (body : Cursor β → Outcome ε β α) : Prop :=
  ∀ c v, body c = .wait v →
    (∀ n, 0 < n → (body (c.extend (List.replicate n []))).Faulty) ∨
      ∀ n, ¬(body (c.extend (List.replicate n []))).Settled

lemma Patient.done (v : α) : Patient (fun c : Cursor β => (.done v c : Outcome ε β α)) := by
  intro _ _ h
  cases h

lemma Patient.fault (v : α) (e : ε) :
    Patient (fun _ : Cursor β => (.fault v e : Outcome ε β α)) := by
  intro _ _ h
  cases h

lemma Patient.andThen {body : Cursor β → Outcome ε β α} {embed : α → γ}
    {k : α → Cursor β → Outcome ε β γ} (hlocal : Local body) (hbody : Patient body)
    (hk : ∀ v, Patient (k v)) : Patient fun c => (body c).andThen embed k := by
  intro c w hwait
  dsimp only at hwait ⊢
  cases hrun : body c with
  | done v d =>
    rw [hrun] at hwait
    have hmore : ∀ n, body (c.extend (List.replicate n [])) =
        .done v (d.extend (List.replicate n [])) := by
      intro n
      rw [hlocal c _ (by rw [hrun]; trivial), hrun]
      rfl
    simp only [hmore]
    exact hk v d w hwait
  | wait v =>
    refine (hbody c v hrun).imp (fun hfails n hn => ?_) fun hwaits n => ?_
    · have := hfails n hn
      cases hrun' : body (c.extend (List.replicate n [])) with
      | done v' d => rw [hrun'] at this; exact this.elim
      | wait v' => rw [hrun'] at this; exact this.elim
      | fault v' e => trivial
    · obtain ⟨v', hv'⟩ := Outcome.eq_wait_of_not_settled (hwaits n)
      rw [hv']
      exact Outcome.not_settled_wait _
  | fault v e =>
    rw [hrun] at hwait
    cases hwait

lemma Patient.map {body : Cursor β → Outcome ε β α} {f : α → γ} (hlocal : Local body)
    (hbody : Patient body) : Patient fun c => (body c).map f := by
  have hmap : (fun c => (body c).map f) = fun c => (body c).andThen f fun v d => .done (f v) d :=
    funext fun c => Outcome.map_eq_andThen f (body c)
  rw [hmap]
  exact hbody.andThen hlocal fun v => Patient.done (f v)

end Patient

/-! ## The side that pushes -/

section Status

variable {ε β α : Type*} (body : Cursor β → Outcome ε β α) (init : α)

/-- The coroutine after the given chunks have been pushed.  The first push enters the body,
so before it the object is as it was. -/
def status : List (List β) → Outcome ε β α
  | [] => .wait init
  | x :: xs => body ⟨x, 0, xs⟩

@[simp] lemma status_nil : status body init [] = .wait init := rfl

@[simp] lemma status_cons (x : List β) (xs : List (List β)) :
    status body init (x :: xs) = body ⟨x, 0, xs⟩ := rfl

variable {body init}

lemma status_append (hbody : Local body) {xs : List (List β)} (ys : List (List β))
    (h : (status body init xs).Settled) :
    status body init (xs ++ ys) = (status body init xs).extend ys := by
  cases xs with
  | nil => exact h.elim
  | cons x xs => exact hbody ⟨x, 0, xs⟩ ys h

/-- A coroutine that returns on the last of its chunks was suspended after each of the
others. -/
lemma status_take_eq_wait (hbody : Local body) {xs : List (List β)} {v : α} {c : Cursor β}
    (hdone : status body init xs = .done v c) (hrest : c.rest = []) {k : ℕ} (hk : k < xs.length) :
    ∃ w, status body init (xs.take k) = .wait w := by
  refine Outcome.eq_wait_of_not_settled fun hsettled => ?_
  have happ := status_append hbody (xs.drop k) hsettled
  rw [List.take_append_drop, hdone] at happ
  cases hrun : status body init (xs.take k) with
  | done w d =>
    rw [hrun] at happ
    have hcur : c = d.extend (xs.drop k) := (Outcome.done.inj happ).2
    have hnil : xs.drop k = [] := by
      rw [hcur] at hrest
      exact (List.append_eq_nil_iff.mp hrest).2
    have := congrArg List.length hnil
    simp only [List.length_drop, List.length_nil] at this
    omega
  | wait w =>
    rw [hrun] at hsettled
    exact hsettled
  | fault w e =>
    rw [hrun] at happ
    cases happ

lemma settled_of_append (hbody : Local body) {xs : List (List β)} (ys : List (List β))
    (h : (status body init xs).Settled) : (status body init (xs ++ ys)).Settled := by
  rw [status_append hbody ys h]
  cases hrun : status body init xs with
  | done v c => trivial
  | wait v =>
    rw [hrun] at h
    exact h.elim
  | fault v e => trivial

/-- A coroutine that waits behind two empty chunks waits behind any number of them.  The first
may be the chunk that enters the body. -/
lemma waits_of_two_empty (hlocal : Local body) (hpatient : Patient body) {xs : List (List β)}
    (h : ¬(status body init (xs ++ [[], []])).Settled) (n : ℕ) :
    ¬(status body init (xs ++ List.replicate n [])).Settled := by
  cases xs with
  | nil =>
    cases n with
    | zero => exact id
    | succ n =>
      have hfirst : ¬(status body init [[]]).Settled := by
        intro hsettled
        have hmore := settled_of_append hlocal [[]] hsettled
        exact h hmore
      obtain ⟨v, hv⟩ := Outcome.eq_wait_of_not_settled hfirst
      rcases hpatient ⟨[], 0, []⟩ v hv with hfails | hwaits
      · exact (h (hfails 1 Nat.one_pos).settled).elim
      · exact hwaits n
  | cons x xs =>
    have hfirst : ¬(status body init (x :: xs)).Settled := fun hsettled =>
      h (settled_of_append hlocal [[], []] hsettled)
    obtain ⟨v, hv⟩ := Outcome.eq_wait_of_not_settled hfirst
    rcases hpatient ⟨x, 0, xs⟩ v hv with hfails | hwaits
    · exact (h (hfails 2 Nat.two_pos).settled).elim
    · exact hwaits n

end Status

end OldPart
