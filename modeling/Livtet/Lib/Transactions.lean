import Livtet.Lib.Outcomes

/-! # Programs over a connection with transactions

    A connection has a stored state and, while a transaction is open, a working copy
    that statements read and write. A commit stores the working copy; dropping an open
    transaction discards it. A program stops at its first error and leaves the
    connection as it then is.

    `Follows` relates a program inside a transaction to a function on states. Under it,
    a program that begins, commits and is dropped either stores what the function gives
    or leaves the stored state alone. `Leaves` is the rule of a program without one: what
    it has written by the time it stops stays. `Refines` relates such a program to a function
    on what is seen of the state. -/

namespace Transactions

open Outcomes

variable {ε σ α β : Type}

structure Connection (σ : Type) where
  stored : σ
  working : Option σ

namespace Connection

/-- A connection without an open transaction. -/
def idle (s : σ) : Connection σ := ⟨s, none⟩

/-- A connection inside a transaction. -/
def inside (stored working : σ) : Connection σ := ⟨stored, some working⟩

/-- The state that statements see. -/
def current (c : Connection σ) : σ := c.working.getD c.stored

/-- A write goes to the working copy of an open transaction, else it is stored. -/
def write (c : Connection σ) (s : σ) : Connection σ :=
  match c.working with
  | some _ => ⟨c.stored, some s⟩
  | none => ⟨s, none⟩

end Connection

open Connection

/-- A program that runs statements on a connection. -/
def Session (ε σ α : Type) : Type := Connection σ → Except ε α × Connection σ

namespace Session

instance : Monad (Session ε σ) where
  pure a := fun c => (.ok a, c)
  bind m f := fun c =>
    match m c with
    | (.ok a, c) => f a c
    | (.error e, c) => (.error e, c)

def throw (e : ε) : Session ε σ α := fun c => (.error e, c)

/-- A query. -/
def query (f : σ → α) : Session ε σ α := fun c => (.ok (f c.current), c)

/-- A statement; one that fails changes nothing. -/
def execute (f : σ → Except ε σ) : Session ε σ Unit := fun c =>
  match f c.current with
  | .ok s => (.ok (), c.write s)
  | .error e => (.error e, c)

/-- A query whose answer may be an error. -/
def ask (f : σ → Except ε α) : Session ε σ α := fun c => (f c.current, c)

/-- An operation that a fault keeps from being carried out. -/
def failing (fault : Option ε) (m : Session ε σ α) : Session ε σ α :=
  match fault with
  | some e => throw e
  | none => m

def begin : Session ε σ Unit := fun c => (.ok (), ⟨c.stored, some c.current⟩)

def commit : Session ε σ Unit := fun c => (.ok (), ⟨c.current, none⟩)

/-- The end of a transaction's scope: one that is still open rolls back. -/
def dropping (m : Session ε σ α) : Session ε σ α := fun c =>
  ((m c).1, ⟨(m c).2.stored, none⟩)

/-- Inside a transaction the program computes what the function does, and stops with
    the function's error; either way nothing is stored. -/
def Follows (m : Session ε σ α) (f : σ → Except ε (α × σ)) : Prop :=
  ∀ stored s,
    match f s with
    | .ok (a, s') => m (inside stored s) = (.ok a, inside stored s')
    | .error e => ∃ s', m (inside stored s) = (.error e, inside stored s')

theorem bind_of_ok {m : Session ε σ α} {f : α → Session ε σ β} {c c' : Connection σ} {a : α}
    (h : m c = (.ok a, c')) : (m >>= f) c = f a c' := by
  show (match m c with
    | (.ok a, c) => f a c
    | (.error e, c) => (.error e, c)) = f a c'
  rw [h]

theorem bind_of_error {m : Session ε σ α} {f : α → Session ε σ β} {c c' : Connection σ} {e : ε}
    (h : m c = (.error e, c')) : (m >>= f) c = (.error e, c') := by
  show (match m c with
    | (.ok a, c) => f a c
    | (.error e, c) => (.error e, c)) = (.error e, c')
  rw [h]

theorem map_id (m : Session ε σ α) : id <$> m = m := by
  funext c
  show (m >>= fun a => pure (id a)) c = m c
  rcases hm : m c with ⟨e | a, c'⟩
  · exact bind_of_error hm
  · exact bind_of_ok hm

theorem assoc {γ : Type} (m : Session ε σ α) (f : α → Session ε σ β) (g : β → Session ε σ γ) :
    m >>= f >>= g = m >>= fun a => f a >>= g := by
  funext c
  rcases hm : m c with ⟨e | a, c'⟩
  · rw [bind_of_error hm, bind_of_error (bind_of_error hm)]
  · rw [bind_of_ok hm]
    rcases hf : f a c' with ⟨e | b, c''⟩
    · rw [bind_of_error hf, bind_of_error ((bind_of_ok hm).trans hf)]
    · rw [bind_of_ok hf, bind_of_ok ((bind_of_ok hm).trans hf)]

instance : LawfulMonad (Session ε σ) :=
  LawfulMonad.mk' (Session ε σ) map_id (fun _ _ => rfl) assoc

namespace Follows

theorem pure (a : α) : Follows (pure a : Session ε σ α) fun s => .ok (a, s) := by
  intro stored s
  rfl

theorem throw (e : ε) : Follows (throw e : Session ε σ α) fun _ => .error e := by
  intro stored s
  exact ⟨s, rfl⟩

theorem query (f : σ → α) : Follows (query f : Session ε σ α) fun s => .ok (f s, s) := by
  intro stored s
  rfl

theorem execute (f : σ → Except ε σ) :
    Follows (execute f) fun s => f s >>= fun s' => .ok ((), s') := by
  intro stored s
  have hrun : Session.execute f (inside stored s) = match f s with
      | .ok s' => (.ok (), (inside stored s).write s')
      | .error e => (.error e, inside stored s) := rfl
  rw [hrun]
  dsimp only
  cases f s with
  | ok s' => rfl
  | error e => exact ⟨s, rfl⟩

theorem bind {m : Session ε σ α} {f : σ → Except ε (α × σ)} {n : α → Session ε σ β}
    {g : α → σ → Except ε (β × σ)} (hm : Follows m f) (hn : ∀ a, Follows (n a) (g a)) :
    Follows (m >>= n) fun s => f s >>= fun p => g p.1 p.2 := by
  intro stored s
  have hstep := hm stored s
  dsimp only
  cases hf : f s with
  | ok p =>
      obtain ⟨a, s1⟩ := p
      rw [hf] at hstep
      rw [bind_of_ok hstep]
      exact hn a stored s1
  | error e =>
      rw [hf] at hstep
      obtain ⟨s', hstop⟩ := hstep
      exact ⟨s', bind_of_error hstop⟩

theorem query_bind {f : σ → α} {n : α → Session ε σ β} {g : α → σ → Except ε (β × σ)}
    (hn : ∀ a, Follows (n a) (g a)) : Follows (Session.query f >>= n) fun s => g (f s) s :=
  (query f).bind hn

theorem execute_bind {f : σ → Except ε σ} {n : Unit → Session ε σ β} {g : σ → Except ε (β × σ)}
    (hn : Follows (n ()) g) : Follows (Session.execute f >>= n) fun s => f s >>= g := by
  have h := (execute f).bind fun _ => hn
  refine cast (congrArg _ (funext fun s => ?_)) h
  cases f s with
  | ok s' => rfl
  | error e => rfl

/-- A loop follows the fold of what its body follows. -/
theorem foldlM {γ : Type} {body : β → γ → Session ε σ β} {f : β → γ → σ → Except ε (β × σ)}
    (hbody : ∀ b x, Follows (body b x) (f b x)) : ∀ (xs : List γ) (b : β),
    Follows (xs.foldlM body b) fun s => xs.foldlM (fun p x => f p.1 x p.2) (b, s) := by
  intro xs
  induction xs with
  | nil =>
      intro b
      exact Follows.pure b
  | cons x rest ih =>
      intro b
      simp only [List.foldlM_cons]
      exact (hbody b x).bind ih

/-- A transaction stores what its body computes, or nothing. -/
theorem transaction {m : Session ε σ α} {f : σ → Except ε (α × σ)} (hm : Follows m f) (s : σ) :
    dropping (do begin; let a ← m; commit; return a) (idle s) =
      match f s with
      | .ok (a, s') => (.ok a, idle s')
      | .error e => (.error e, idle s) := by
  have hbegin : ∀ n : Unit → Session ε σ α, (begin >>= n) (idle s) = n () (inside s s) :=
    fun n => bind_of_ok rfl
  unfold dropping
  rw [hbegin]
  have hbody := hm s s
  cases hf : f s with
  | ok p =>
      obtain ⟨a, s'⟩ := p
      rw [hf] at hbody
      rw [bind_of_ok hbody]
      rfl
  | error e =>
      rw [hf] at hbody
      obtain ⟨s', hstop⟩ := hbody
      rw [bind_of_error hstop]
      rfl

end Follows

/-! ## Without a transaction -/

/-- What a program returns, and the stored state that it leaves. -/
def Leaves (m : Session ε σ α) (s : σ) (post : Except ε α → σ → Prop) : Prop :=
  ∃ r s', m (idle s) = (r, idle s') ∧ post r s'

namespace Leaves

variable {m : Session ε σ α} {s : σ} {post : Except ε α → σ → Prop}

theorem pure {a : α} (h : post (.ok a) s) : Leaves (pure a) s post := ⟨_, _, rfl, h⟩

theorem throw {e : ε} (h : post (.error e) s) : Leaves (throw e) s post := ⟨_, _, rfl, h⟩

theorem ask {f : σ → Except ε α} (h : post (f s) s) : Leaves (Session.ask f) s post :=
  ⟨_, _, rfl, h⟩

/-- A statement that goes through stores what it wrote. -/
theorem execute {f : σ → Except ε σ} {post : Except ε Unit → σ → Prop}
    (hok : ∀ s', f s = .ok s' → post (.ok ()) s')
    (herror : ∀ e, f s = .error e → post (.error e) s) : Leaves (Session.execute f) s post := by
  have hrun : Session.execute f (idle s) = match f s with
      | .ok s' => (.ok (), (idle s).write s')
      | .error e => (.error e, idle s) := rfl
  cases hf : f s with
  | ok s' =>
      rw [hf] at hrun
      exact ⟨_, s', hrun, hok s' hf⟩
  | error e =>
      rw [hf] at hrun
      exact ⟨_, s, hrun, herror e hf⟩

/-- An operation is not carried out, or as it is. -/
theorem failing {fault : Option ε} (hfault : ∀ e, fault = some e → post (.error e) s)
    (hnone : fault = none → Leaves m s post) : Leaves (Session.failing fault m) s post := by
  cases hf : fault with
  | some e => exact ⟨_, s, rfl, hfault e hf⟩
  | none => exact hnone hf

theorem imp {post' : Except ε α → σ → Prop} (h : Leaves m s post)
    (himp : ∀ r s', post r s' → post' r s') : Leaves m s post' := by
  obtain ⟨r, s', hrun, hpost⟩ := h
  exact ⟨r, s', hrun, himp r s' hpost⟩

/-- One program after the other, unless the first stops. -/
theorem bind {n : α → Session ε σ β} {post : Except ε β → σ → Prop}
    (h : Leaves m s fun r s' => (∀ a, r = .ok a → Leaves (n a) s' post) ∧
      ∀ e, r = .error e → post (.error e) s') : Leaves (m >>= n) s post := by
  obtain ⟨r, s', hrun, hok, herror⟩ := h
  cases r with
  | ok a =>
      obtain ⟨r, s'', hnext, hpost⟩ := hok a rfl
      exact ⟨r, s'', (bind_of_ok hrun).trans hnext, hpost⟩
  | error e => exact ⟨_, s', bind_of_error hrun, herror e rfl⟩

end Leaves

/-! ## Seen through a view -/

/-- Seen through the view, the program computes what the function does, and stops with the
    function's error. -/
def Refines {τ : Type} (view : σ → τ) (m : Session ε σ α) (f : τ → Except ε (α × τ)) : Prop :=
  ∀ s, Leaves m s fun r s' =>
    r = (f (view s)).map Prod.fst ∧ ∀ p, f (view s) = .ok p → view s' = p.2

namespace Refines

variable {τ : Type} {view : σ → τ}

theorem of_eq {m : Session ε σ α} {f g : τ → Except ε (α × τ)} (hm : Refines view m f)
    (h : ∀ t, f t = g t) : Refines view m g := funext h ▸ hm

theorem pure (a : α) : Refines view (pure a : Session ε σ α) fun t => .ok (a, t) := by
  intro s
  refine Leaves.pure ⟨rfl, fun p hp => ?_⟩
  cases hp
  rfl

theorem throw (e : ε) : Refines view (throw e : Session ε σ α) fun _ => .error e := by
  intro s
  refine Leaves.throw ⟨rfl, fun p hp => ?_⟩
  cases hp

theorem ask {f : σ → Except ε α} {g : τ → Except ε α} (h : ∀ s, f s = g (view s)) :
    Refines view (Session.ask f) fun t => (g t).map fun a => (a, t) := by
  intro s
  refine Leaves.ask ?_
  rw [h s]
  dsimp only
  cases g (view s) with
  | error e => exact ⟨rfl, fun p hp => by cases hp⟩
  | ok a => exact ⟨rfl, fun p hp => by cases hp; rfl⟩

theorem execute {f : σ → Except ε σ} {g : τ → Except ε τ} (h : ∀ s, (f s).map view = g (view s)) :
    Refines view (Session.execute f) fun t => (g t).map fun t' => ((), t') := by
  intro s
  dsimp only
  rw [← h s]
  refine Leaves.execute (fun s' hs' => ?_) fun e he => ?_
  · rw [hs']
    exact ⟨rfl, fun p hp => by cases hp; rfl⟩
  · rw [he]
    exact ⟨rfl, fun p hp => by cases hp⟩

theorem bind {m : Session ε σ α} {f : τ → Except ε (α × τ)} {n : α → Session ε σ β}
    {g : α → τ → Except ε (β × τ)} (hm : Refines view m f) (hn : ∀ a, Refines view (n a) (g a)) :
    Refines view (m >>= n) fun t => f t >>= fun p => g p.1 p.2 := by
  intro s
  refine Leaves.bind ((hm s).imp fun r s' h => ?_)
  obtain ⟨hr, hview⟩ := h
  dsimp only
  cases hf : f (view s) with
  | error e =>
      rw [hf] at hr
      refine ⟨fun a ha => ?_, fun e' he => ?_⟩
      · cases ha.symm.trans hr
      · cases he.symm.trans hr
        exact ⟨rfl, fun p hp => by cases hp⟩
  | ok p =>
      rw [hf] at hr
      refine ⟨fun a ha => ?_, fun e' he => ?_⟩
      · cases ha.symm.trans hr
        have hnext := hn p.1 s'
        rw [hview p hf] at hnext
        exact hnext
      · cases he.symm.trans hr

end Refines

end Session

end Transactions
