/-!
# Programs that ask

A program that asks its surroundings one question after another and may fail, as a tree: what
it does next depends on the answer it got. A statement about every run is one about every
branch of the tree, and goes through a program's text from its end to its beginning.
-/

namespace Lib

/-- `R q` is what a question comes to where it does not fail. -/
inductive Dialogue (Q : Type) (R : Q → Type) (ε α : Type) where
  | done (r : Except ε α)
  | ask (q : Q) (k : Except ε (R q) → Dialogue Q R ε α)

namespace Dialogue
variable {Q : Type} {R : Q → Type} {ε α β : Type}

/-- A question and the answer that was given. -/
structure Event (Q : Type) (R : Q → Type) (ε : Type) where
  q : Q
  answer : Except ε (R q)

def bind : Dialogue Q R ε α → (α → Dialogue Q R ε β) → Dialogue Q R ε β
  | done (.ok a), f => f a
  | done (.error e), _ => done (.error e)
  | ask q k, f => ask q fun r => (k r).bind f

/-- What is done instead where the program fails. -/
def recover : Dialogue Q R ε α → (ε → Dialogue Q R ε α) → Dialogue Q R ε α
  | done (.ok a), _ => done (.ok a)
  | done (.error e), h => h e
  | ask q k, h => ask q fun r => (k r).recover h

instance : Monad (Dialogue Q R ε) where
  pure a := done (.ok a)
  bind := bind

instance : MonadExceptOf ε (Dialogue Q R ε) where
  throw e := done (.error e)
  tryCatch := recover

theorem bind_done_right (p : Dialogue Q R ε α) : (p.bind fun a => done (.ok a)) = p := by
  induction p with
  | done r => cases r <;> rfl
  | ask q k ih => exact congrArg (ask q) (funext ih)

theorem bind_bind {γ : Type} (p : Dialogue Q R ε α) (f : α → Dialogue Q R ε β)
    (g : β → Dialogue Q R ε γ) : (p.bind f).bind g = p.bind fun a => (f a).bind g := by
  induction p with
  | done r => cases r <;> rfl
  | ask q k ih => exact congrArg (ask q) (funext ih)

instance : LawfulMonad (Dialogue Q R ε) :=
  LawfulMonad.mk' _ bind_done_right (fun _ _ => rfl) bind_bind

/-- One question. -/
def call (q : Q) : Dialogue Q R ε (R q) := ask q done

/-- The error told in another way. -/
def mapError (p : Dialogue Q R ε α) (f : ε → ε) : Dialogue Q R ε α :=
  p.recover fun e => throw (f e)

/-! ### Every run -/

/-- Whatever the answers are, `post` holds of what was asked and of what came of it. -/
def After (post : List (Event Q R ε) → Except ε α → Prop) :
    List (Event Q R ε) → Dialogue Q R ε α → Prop
  | log, done r => post log r
  | log, ask q k => ∀ r, After post (log ++ [⟨q, r⟩]) (k r)

/-- A program that goes on from `a`. -/
def Then (post : List (Event Q R ε) → Except ε β → Prop) (f : α → Dialogue Q R ε β)
    (log : List (Event Q R ε)) : Except ε α → Prop
  | .ok a => After post log (f a)
  | .error e => post log (.error e)

/-- A program that goes on from `e`. -/
def Else (post : List (Event Q R ε) → Except ε α → Prop) (h : ε → Dialogue Q R ε α)
    (log : List (Event Q R ε)) : Except ε α → Prop
  | .ok a => post log (.ok a)
  | .error e => After post log (h e)

variable {post post' : List (Event Q R ε) → Except ε α → Prop}
variable {out : List (Event Q R ε) → Except ε β → Prop}
variable {log : List (Event Q R ε)} {p : Dialogue Q R ε α}

@[simp] theorem after_pure (a : α) : After post log (pure a) ↔ post log (.ok a) := Iff.rfl

@[simp] theorem after_throw (e : ε) : After post log (throw e) ↔ post log (.error e) := Iff.rfl

@[simp] theorem after_done (r : Except ε α) : After post log (done r) ↔ post log r := Iff.rfl

theorem After.mono (h : After post log p) (hpost : ∀ log r, post log r → post' log r) :
    After post' log p := by
  induction p generalizing log with
  | done r => exact hpost log r h
  | ask q k ih => exact fun r => ih r (h r)

theorem After.and (h : After post log p) (h' : After post' log p) :
    After (fun log r => post log r ∧ post' log r) log p := by
  induction p generalizing log with
  | done r => exact ⟨h, h'⟩
  | ask q k ih => exact fun r => ih r (h r) (h' r)

/-- The rule of sequencing. -/
theorem after_bind {f : α → Dialogue Q R ε β} :
    After out log (p >>= f) ↔ After (Then out f) log p := by
  induction p generalizing log with
  | done r => cases r <;> exact Iff.rfl
  | ask q k ih => exact forall_congr' fun r => ih r

theorem After.bind {f : α → Dialogue Q R ε β} (hp : After post log p)
    (hok : ∀ log a, post log (.ok a) → After out log (f a))
    (herr : ∀ log e, post log (.error e) → out log (.error e)) : After out log (p >>= f) := by
  rw [after_bind]
  apply hp.mono
  intro log r hr
  cases r with
  | ok a => exact hok log a hr
  | error e => exact herr log e hr

/-- The rule of recovery. -/
theorem after_recover {h : ε → Dialogue Q R ε α} :
    After post log (p.recover h) ↔ After (Else post h) log p := by
  induction p generalizing log with
  | done r => cases r <;> exact Iff.rfl
  | ask q k ih => exact forall_congr' fun r => ih r

theorem After.recover {h : ε → Dialogue Q R ε α} (hp : After post log p)
    (hok : ∀ log a, post log (.ok a) → post' log (.ok a))
    (herr : ∀ log e, post log (.error e) → After post' log (h e)) :
    After post' log (p.recover h) := by
  rw [after_recover]
  apply hp.mono
  intro log r hr
  cases r with
  | ok a => exact hok log a hr
  | error e => exact herr log e hr

theorem after_mapError {f : ε → ε} :
    After post log (p.mapError f) ↔ After (fun log r => post log (r.mapError f)) log p := by
  rw [mapError, after_recover]
  have hsame : Else post (fun e => (throw (f e) : Dialogue Q R ε α)) =
      fun log r => post log (r.mapError f) := by
    funext log r
    cases r <;> rfl
  rw [hsame]

/-! ### One run -/

/-- `log'` is all that was asked in a run, and `r` what came of it. -/
inductive Runs : List (Event Q R ε) → Dialogue Q R ε α → List (Event Q R ε) → Except ε α → Prop
  | done (log : List (Event Q R ε)) (r : Except ε α) : Runs log (done r) log r
  | ask {log log' : List (Event Q R ε)} {q : Q} {k : Except ε (R q) → Dialogue Q R ε α}
      {r : Except ε α} (a : Except ε (R q)) :
      Runs (log ++ [⟨q, a⟩]) (k a) log' r → Runs log (ask q k) log' r

theorem after_iff : After post log p ↔ ∀ log' r, Runs log p log' r → post log' r := by
  constructor
  · intro h log' r hrun
    induction hrun with
    | done => exact h
    | ask a _ ih => exact ih (h a)
  · intro h
    induction p generalizing log with
    | done r => exact h log r (.done log r)
    | ask q k ih => exact fun a => ih a fun log' r hrun => h log' r (.ask a hrun)

/-- The run where `o` answers. -/
def play (o : ∀ q, Except ε (R q)) :
    List (Event Q R ε) → Dialogue Q R ε α → List (Event Q R ε) × Except ε α
  | log, done r => (log, r)
  | log, ask q k => play o (log ++ [⟨q, o q⟩]) (k (o q))

theorem runs_play (o : ∀ q, Except ε (R q)) (log : List (Event Q R ε))
    (p : Dialogue Q R ε α) : Runs log p (play o log p).1 (play o log p).2 := by
  induction p generalizing log with
  | done r => exact .done log r
  | ask q k ih => exact .ask (o q) (ih (o q) _)

variable (o : ∀ q, Except ε (R q))

@[simp] theorem play_pure (a : α) : play o log (pure a) = (log, .ok a) := rfl

@[simp] theorem play_done (r : Except ε α) : play o log (done r) = (log, r) := rfl

@[simp] theorem play_call (q : Q) : play o log (call q) = (log ++ [⟨q, o q⟩], o q) := rfl

theorem play_bind (f : α → Dialogue Q R ε β) :
    play o log (p >>= f) = match play o log p with
      | (log', .ok a) => play o log' (f a)
      | (log', .error e) => (log', .error e) := by
  induction p generalizing log with
  | done r => cases r <;> rfl
  | ask q k ih => exact ih (o q)

theorem play_recover (h : ε → Dialogue Q R ε α) :
    play o log (p.recover h) = match play o log p with
      | (log', .ok a) => (log', .ok a)
      | (log', .error e) => play o log' (h e) := by
  induction p generalizing log with
  | done r => cases r <;> rfl
  | ask q k ih => exact ih (o q)

/-! ### What is asked -/

/-- Whatever the answers are, every question is one of `ok`, and what comes of the program, where
it does not fail, is one of `good`. -/
def Asks (ok : Q → Prop) (good : α → Prop) : Dialogue Q R ε α → Prop
  | done (.ok a) => good a
  | done (.error _) => True
  | ask q k => ok q ∧ ∀ r, Asks ok good (k r)

variable {ok : Q → Prop} {good good' : α → Prop} {goal : β → Prop}

theorem asks_call {q : Q} (h : ok q) : Asks ok (fun _ => True) (call q : Dialogue Q R ε (R q)) := by
  refine ⟨h, fun r => ?_⟩
  cases r <;> trivial

theorem Asks.bind {f : α → Dialogue Q R ε β} (hp : Asks ok good p)
    (hf : ∀ a, good a → Asks ok goal (f a)) : Asks ok goal (p >>= f) := by
  induction p with
  | done r =>
    cases r with
    | ok a => exact hf a hp
    | error e => trivial
  | ask q k ih => exact ⟨hp.1, fun r => ih r (hp.2 r)⟩

theorem Asks.recover {h : ε → Dialogue Q R ε α} (hp : Asks ok good p)
    (hh : ∀ e, Asks ok good (h e)) : Asks ok good (p.recover h) := by
  induction p with
  | done r =>
    cases r with
    | ok a => exact hp
    | error e => exact hh e
  | ask q k ih => exact ⟨hp.1, fun r => ih r (hp.2 r)⟩

theorem Asks.mapError {f : ε → ε} (hp : Asks ok good p) : Asks ok good (p.mapError f) :=
  hp.recover fun _ => trivial

theorem Asks.mono (hp : Asks ok good p) (h : ∀ a, good a → good' a) : Asks ok good' p := by
  induction p with
  | done r =>
    cases r with
    | ok a => exact h a hp
    | error e => trivial
  | ask q k ih => exact ⟨hp.1, fun r => ih r (hp.2 r)⟩

theorem Asks.runs {log' : List (Event Q R ε)} {r : Except ε α} (hp : Asks ok good p)
    (hrun : Runs log p log' r) :
    (∃ more, log' = log ++ more ∧ ∀ e ∈ more, ok e.q) ∧ ∀ a, r = .ok a → good a := by
  induction hrun with
  | done log r =>
    refine ⟨⟨[], (List.append_nil log).symm, fun e he => by cases he⟩, fun a ha => ?_⟩
    subst ha
    exact hp
  | @ask log log' q k r answer _ ih =>
    obtain ⟨⟨more, hlog, hmore⟩, hgood⟩ := ih (hp.2 answer)
    refine ⟨⟨⟨q, answer⟩ :: more, ?_, fun e he => ?_⟩, hgood⟩
    · rw [hlog, List.append_assoc, List.singleton_append]
    · rcases List.mem_cons.mp he with rfl | he
      · exact hp.1
      · exact hmore e he

/-- A run of two programs in turn is a run of each. -/
theorem runs_bind {f : α → Dialogue Q R ε β} {log' : List (Event Q R ε)} {r : Except ε β} :
    Runs log (p >>= f) log' r ↔
      (∃ mid a, Runs log p mid (.ok a) ∧ Runs mid (f a) log' r) ∨
        ∃ e, Runs log p log' (.error e) ∧ r = .error e := by
  induction p generalizing log with
  | done x =>
    cases x with
    | ok a =>
      constructor
      · intro h
        exact .inl ⟨_, a, .done _ _, h⟩
      · rintro (⟨mid, a', hp, hf⟩ | ⟨e, hp, -⟩)
        · cases hp
          exact hf
        · cases hp
    | error e =>
      constructor
      · intro h
        cases h
        exact .inr ⟨e, .done _ _, rfl⟩
      · rintro (⟨mid, a', hp, -⟩ | ⟨e', hp, rfl⟩)
        · cases hp
        · cases hp
          exact .done _ _
  | ask q k ih =>
    constructor
    · intro h
      cases h with
      | ask answer hrun =>
        rcases (ih answer).mp hrun with ⟨mid, a, hp, hf⟩ | ⟨e, hp, hr⟩
        · exact .inl ⟨mid, a, .ask answer hp, hf⟩
        · exact .inr ⟨e, .ask answer hp, hr⟩
    · rintro (⟨mid, a, hp, hf⟩ | ⟨e, hp, hr⟩)
      · cases hp with
        | ask answer hp => exact .ask answer ((ih answer).mpr (.inl ⟨mid, a, hp, hf⟩))
      · cases hp with
        | ask answer hp => exact .ask answer ((ih answer).mpr (.inr ⟨e, hp, hr⟩))

end Dialogue
end Lib
