import Mathlib.Logic.Basic

/-!
# Programs over atomic calls

A program is a tree of atomic calls. The world answers each call with a reply and a new state,
and the environment picks, call by call, which of the possible answers it gives
(a call may fail, a clock may read anything).

What `wp` says of a program holds of its runs, by `wp_exec`, `wp_run` and `wp_play`.
-/

namespace Infra

/-- A program that makes atomic calls `op : Op` and continues with the reply. -/
inductive Prog (Op : Type) (Res : Op → Type) (α : Type) where
  | ret (a : α)
  | call (op : Op) (k : Res op → Prog Op Res α)

namespace Prog

variable {Op : Type} {Res : Op → Type} {α β σ χ : Type} {Q : α → σ → Prop} {C I : σ → Prop}
  {s : σ} {p : Prog Op Res α} {f : α → Prog Op Res β} {A : Op → Prop}

def bind : Prog Op Res α → (α → Prog Op Res β) → Prog Op Res β
  | .ret a, f => f a
  | .call op k, f => .call op (fun r => (k r).bind f)

instance : Monad (Prog Op Res) where
  pure := .ret
  bind := Prog.bind

def lift (op : Op) : Prog Op Res (Res op) := .call op .ret

@[simp] theorem pure_eq (a : α) : (pure a : Prog Op Res α) = .ret a := rfl

@[simp] theorem ret_bind (a : α) (f : α → Prog Op Res β) : (Prog.ret a >>= f) = f a := rfl

@[simp] theorem call_bind (op : Op) (k : Res op → Prog Op Res α) (f : α → Prog Op Res β) :
    (Prog.call op k >>= f) = .call op (fun r => k r >>= f) := rfl

@[simp] theorem lift_bind (op : Op) (f : Res op → Prog Op Res β) :
    (lift op >>= f) = .call op f := rfl

/-! ## Running a program -/

/-- How a run ended. `val` is `none` when it was stopped between two calls. -/
structure Outcome (α σ χ : Type) where
  val : Option α
  state : σ
  rest : List χ

/-- Run a program against the choices of the environment, one choice for each call. -/
def exec (step : χ → (op : Op) → σ → Res op × σ) :
    Prog Op Res α → List χ → σ → Outcome α σ χ
  | .ret a, cs, s => ⟨some a, s, cs⟩
  | .call _ _, [], s => ⟨none, s, []⟩
  | .call op k, c :: cs, s => exec step (k (step c op s).1) cs (step c op s).2

/-- Run a program in an environment that always chooses `c`. Such a run always returns. -/
def run (step : χ → (op : Op) → σ → Res op × σ) (c : χ) : Prog Op Res α → σ → α × σ
  | .ret a, s => (a, s)
  | .call op k, s => run step c (k (step c op s).1) (step c op s).2

/-- Run a program against an endless list of choices. Such a run always returns. -/
def play (step : χ → (op : Op) → σ → Res op × σ) : Prog Op Res α → (Nat → χ) → σ → α × σ
  | .ret a, _, s => (a, s)
  | .call op k, env, s =>
    play step (k (step (env 0) op s).1) (fun i => env (i + 1)) (step (env 0) op s).2

theorem play_lift {step : χ → (op : Op) → σ → Res op × σ} (op : Op) (f : Res op → Prog Op Res α)
    (env : Nat → χ) (s : σ) : play step (lift op >>= f) env s =
      play step (f (step (env 0) op s).1) (fun i => env (i + 1)) (step (env 0) op s).2 := rfl

def advance (step : χ → (op : Op) → σ → Res op × σ) (c : χ) :
    Prog Op Res α → σ → Prog Op Res α × σ
  | .ret a, s => (.ret a, s)
  | .call op k, s => (k (step c op s).1, (step c op s).2)

/-- Every call of the run is made under the assumption `R` on the environment. -/
def Along (step : χ → (op : Op) → σ → Res op × σ) (R : χ → Op → σ → Prop) :
    Prog Op Res α → List χ → σ → Prop
  | .ret _, _, _ => True
  | .call _ _, [], _ => True
  | .call op k, c :: cs, s => R c op s ∧ Along step R (k (step c op s).1) cs (step c op s).2

variable {step : χ → (op : Op) → σ → Res op × σ} {R : χ → Op → σ → Prop}

theorem along_of_forall (hR : ∀ c op s, R c op s) :
    ∀ (p : Prog Op Res α) (cs : List χ) (s : σ), Along step R p cs s
  | .ret _, _, _ => trivial
  | .call _ _, [], _ => trivial
  | .call op k, c :: cs, s =>
    ⟨hR c op s, along_of_forall hR (k (step c op s).1) cs (step c op s).2⟩

theorem along_true (p : Prog Op Res α) (cs : List χ) (s : σ) :
    Along step (fun _ _ _ => True) p cs s :=
  along_of_forall (fun _ _ _ => trivial) p cs s

theorem along_of_choices {P : χ → Prop} (hR : ∀ c op s, P c → R c op s) :
    ∀ (p : Prog Op Res α) (cs : List χ) (s : σ), (∀ c ∈ cs, P c) → Along step R p cs s
  | .ret _, _, _, _ => trivial
  | .call _ _, [], _, _ => trivial
  | .call op k, c :: cs, s, h =>
    ⟨hR c op s (h c List.mem_cons_self), along_of_choices hR (k (step c op s).1) cs (step c op s).2
      (fun c' hc' => h c' (List.mem_cons_of_mem _ hc'))⟩

/-! ## Preconditions -/

/-- The weakest precondition under the assumption `R`: `Q` holds at the end, and `C` before every
call. -/
def wp (step : χ → (op : Op) → σ → Res op × σ) (R : χ → Op → σ → Prop) :
    Prog Op Res α → (α → σ → Prop) → (σ → Prop) → σ → Prop
  | .ret a, Q, _, s => Q a s
  | .call op k, Q, C, s =>
    C s ∧ ∀ c, R c op s → wp step R (k (step c op s).1) Q C (step c op s).2

@[simp] theorem wp_ret {a : α} :
    wp step R (.ret a) Q C s ↔ Q a s := Iff.rfl

@[simp] theorem wp_call {op : Op} {k : Res op → Prog Op Res α} :
    wp step R (.call op k) Q C s ↔
      C s ∧ ∀ c, R c op s → wp step R (k (step c op s).1) Q C (step c op s).2 := Iff.rfl

theorem wp_bind {Q : β → σ → Prop} :
    ∀ {s : σ}, wp step R (p >>= f) Q C s ↔ wp step R p (fun a => wp step R (f a) Q C) C s := by
  induction p with
  | ret a => exact Iff.rfl
  | call op k ih =>
    intro s
    simp only [call_bind, wp_call]
    exact and_congr_right fun _ => forall_congr' fun c => imp_congr_right fun _ => ih _

theorem wp_mono {Q' : α → σ → Prop} {C' : σ → Prop} (hQ : ∀ a s, Q a s → Q' a s)
    (hC : ∀ s, C s → C' s) : ∀ {s : σ}, wp step R p Q C s → wp step R p Q' C' s := by
  induction p with
  | ret a => intro s h; exact hQ a s h
  | call op k ih => intro s h; exact ⟨hC s h.1, fun c hc => ih _ (h.2 c hc)⟩

theorem wp_assuming {R' : χ → Op → σ → Prop} (hR : ∀ c op s, R' c op s → R c op s) :
    ∀ {s : σ}, wp step R p Q C s → wp step R' p Q C s := by
  induction p with
  | ret a => exact fun h => h
  | call op k ih => exact fun {s} h => ⟨h.1, fun c hc => ih _ (h.2 c (hR c op s hc))⟩

theorem wp_and {Q' : α → σ → Prop} {C' : σ → Prop} :
    ∀ {s : σ}, wp step R p Q C s → wp step R p Q' C' s →
      wp step R p (fun a t => Q a t ∧ Q' a t) (fun t => C t ∧ C' t) s := by
  induction p with
  | ret a => exact fun h h' => ⟨h, h'⟩
  | call op k ih => exact fun h h' => ⟨⟨h.1, h'.1⟩, fun c hc => ih _ (h.2 c hc) (h'.2 c hc)⟩

theorem wp_seq {P : α → σ → Prop} {Q : β → σ → Prop} {D : σ → Prop} (hp : wp step R p P D s)
    (hC : ∀ t, D t → C t) (hf : ∀ a t, P a t → wp step R (f a) Q C t) : wp step R (p >>= f) Q C s :=
  wp_bind.mpr (wp_mono hf hC hp)

/-- **A program run under its assumption ends as its precondition says.** -/
theorem wp_exec :
    ∀ {cs : List χ} {s : σ}, wp step R p Q C s → Along step R p cs s →
      match (exec step p cs s).val with
      | some a => Q a (exec step p cs s).state
      | none => C (exec step p cs s).state := by
  induction p with
  | ret a => intro cs s h _; exact h
  | call op k ih =>
    intro cs s h hr
    cases cs with
    | nil => exact h.1
    | cons c cs => exact ih _ (h.2 c hr.1) hr.2

theorem wp_run {c : χ} (hc : ∀ op s, R c op s) : ∀ {s : σ}, wp step R p Q C s →
      Q (run step c p s).1 (run step c p s).2 := by
  induction p with
  | ret a => intro s h; exact h
  | call op k ih => intro s h; exact ih _ (h.2 c (hc op s))

theorem wp_play :
    ∀ {s : σ} (env : Nat → χ), wp step R p Q C s → (∀ i op s, R (env i) op s) →
      Q (play step p env s).1 (play step p env s).2 := by
  induction p with
  | ret a => intro s env h _; exact h
  | call op k ih =>
    intro s env h henv
    exact ih _ _ (h.2 (env 0) (henv 0 op s)) fun i => henv (i + 1)

theorem wp_exec_some {cs : List χ} {a : α} (h : wp step R p Q C s) (hr : Along step R p cs s)
    (hv : (exec step p cs s).val = some a) : Q a (exec step p cs s).state := by
  have := wp_exec h hr
  rw [hv] at this
  exact this

theorem wp_exec_state {cs : List χ} (h : wp step R p Q C s) (hr : Along step R p cs s)
    (hQ : ∀ a t, Q a t → I t) (hC : ∀ t, C t → I t) : I (exec step p cs s).state := by
  have := wp_exec h hr
  split at this
  · exact hQ _ _ this
  · exact hC _ this

/-! ## Programs that keep an invariant -/

/-- Every call the program can make satisfies `A`. -/
def Uses (A : Op → Prop) : Prog Op Res α → Prop
  | .ret _ => True
  | .call op k => A op ∧ ∀ r, (k r).Uses A

theorem uses_bind (hp : p.Uses A) (hf : ∀ a, (f a).Uses A) : (p >>= f).Uses A := by
  induction p with
  | ret a => exact hf a
  | call op k ih => exact ⟨hp.1, fun r => ih r (hp.2 r)⟩

theorem Uses.mono {B : Op → Prop} (hAB : ∀ op, A op → B op) (hp : p.Uses A) : p.Uses B := by
  induction p with
  | ret a => trivial
  | call op k ih => exact ⟨hAB op hp.1, fun r => ih r (hp.2 r)⟩

theorem uses_lift {op : Op} (hop : A op) : (lift op : Prog Op Res (Res op)).Uses A :=
  ⟨hop, fun _ => trivial⟩

theorem uses_step {op : Op} {f : Res op → Prog Op Res β} (hop : A op) (hf : ∀ r, (f r).Uses A) :
    (lift op >>= f).Uses A :=
  ⟨hop, hf⟩

/-- A part that may fail, before the rest of a program. -/
theorem uses_ok {ε : Type} {p : Prog Op Res (Except ε α)} {f : Except ε α → Prog Op Res β}
    (hp : p.Uses A) (herror : ∀ e, (f (.error e)).Uses A) (hok : ∀ a, (f (.ok a)).Uses A) :
    (p >>= f).Uses A := by
  refine uses_bind hp fun r => ?_
  cases r with
  | error e => exact herror e
  | ok a => exact hok a

/-- What every call of a program keeps, the program keeps, also when it is stopped. -/
theorem wp_of_uses (hI : ∀ c op s, A op → R c op s → I s → I (step c op s).2) :
    ∀ {s : σ}, p.Uses A → I s → wp step R p (fun _ => I) I s := by
  induction p with
  | ret a => intro s _ hs; exact hs
  | call op k ih =>
    intro s hu hs
    exact ⟨hs, fun c hc => ih _ (hu.2 _) (hI c op s hu.1 hc hs)⟩

/-! ## What a program knows -/

section

variable {N : Type} {tell : N → (op : Op) → Res op → N} {B : N → Op → Prop} {P : α → N → Prop}

/-- The program makes only calls and returns only results that are allowed by what it knows. Every
reply tells it more. -/
def Obeys (tell : N → (op : Op) → Res op → N) (B : N → Op → Prop) :
    Prog Op Res α → (α → N → Prop) → N → Prop
  | .ret a, P, n => P a n
  | .call op k, P, n => B n op ∧ ∀ r, (k r).Obeys tell B P (tell n op r)

theorem obeys_step {op : Op} {f : Res op → Prog Op Res β} {P : β → N → Prop} {n : N}
    (hop : B n op) (hf : ∀ r, (f r).Obeys tell B P (tell n op r)) :
    (lift op >>= f).Obeys tell B P n :=
  ⟨hop, hf⟩

theorem obeys_bind {P' : β → N → Prop} (hf : ∀ a n, P a n → (f a).Obeys tell B P' n) :
    ∀ {n : N}, p.Obeys tell B P n → (p >>= f).Obeys tell B P' n := by
  induction p with
  | ret a => exact fun h => hf a _ h
  | call op k ih => exact fun h => ⟨h.1, fun r => ih r (h.2 r)⟩

theorem Obeys.mono {B' : N → Op → Prop} {P' : α → N → Prop} (hB : ∀ n op, B n op → B' n op)
    (hP : ∀ a n, P a n → P' a n) : ∀ {n : N}, p.Obeys tell B P n → p.Obeys tell B' P' n := by
  induction p with
  | ret a => exact fun h => hP a _ h
  | call op k ih => exact fun h => ⟨hB _ op h.1, fun r => ih r (h.2 r)⟩

theorem Obeys.uses (hB : ∀ n op, B n op → A op) : ∀ {n : N}, p.Obeys tell B P n → p.Uses A := by
  induction p with
  | ret a => exact fun _ => trivial
  | call op k ih => exact fun h => ⟨hB _ op h.1, fun r => ih r (h.2 r)⟩

theorem Uses.obeys (h : p.Uses A) : ∀ n : N, p.Obeys tell (fun _ => A) (fun _ _ => True) n := by
  induction p with
  | ret a => exact fun _ => trivial
  | call op k ih => exact fun n => ⟨h.1, fun r => ih r (h.2 r) _⟩

/-- What every call keeps that is allowed by what is known, the program keeps. -/
theorem wp_of_obeys {J : N → σ → Prop}
    (hJ : ∀ c op n s, B n op → J n s → J (tell n op (step c op s).1) (step c op s).2)
    (hC : ∀ n s, J n s → C s) (hQ : ∀ a n s, P a n → J n s → Q a s) :
    ∀ {n : N} {s : σ}, p.Obeys tell B P n → J n s → wp step R p Q C s := by
  induction p with
  | ret a => exact fun hp hs => hQ a _ _ hp hs
  | call op k ih =>
    exact fun hp hs => ⟨hC _ _ hs, fun c _ => ih _ (hp.2 _) (hJ c op _ _ hp.1 hs)⟩

end

theorem wp_of_step (hI : ∀ c op s, I s → I (step c op s).2) (p : Prog Op Res α) :
    ∀ {s : σ}, I s → wp step R p (fun _ => I) I s := by
  induction p with
  | ret a => intro s hs; exact hs
  | call op k ih => intro s hs; exact ⟨hs, fun c _ => ih _ (hI c op s hs)⟩

/-! ## The calls of a run -/

def history (step : χ → (op : Op) → σ → Res op × σ) :
    Prog Op Res α → List χ → σ → List (Σ op, Res op)
  | .ret _, _, _ => []
  | .call _ _, [], _ => []
  | .call op k, c :: cs, s =>
    ⟨op, (step c op s).1⟩ :: history step (k (step c op s).1) cs (step c op s).2

def logged (step : χ → (op : Op) → σ → Res op × σ) (c : χ) (op : Op)
    (t : σ × List (Σ op, Res op)) : Res op × (σ × List (Σ op, Res op)) :=
  ((step c op t.1).1, (step c op t.1).2, t.2 ++ [⟨op, (step c op t.1).1⟩])

theorem logged_eq {step : χ → (op : Op) → σ → Res op × σ} {c : χ} {op : Op} {s s' : σ} {r : Res op}
    (h : step c op s = (r, s')) (l : List (Σ op, Res op)) :
    logged step c op (s, l) = (r, s', l ++ [⟨op, r⟩]) := by
  rw [logged, h]

theorem state_logged (p : Prog Op Res α) : ∀ (cs : List χ) (s : σ) (l : List (Σ op, Res op)),
    (exec (logged step) p cs (s, l)).state =
      ((exec step p cs s).state, l ++ history step p cs s) := by
  induction p with
  | ret a => exact fun cs s l => by rw [history, List.append_nil]; rfl
  | call op k ih =>
    intro cs s l
    cases cs with
    | nil => rw [history, List.append_nil]; rfl
    | cons c cs =>
      rw [history, exec, logged, ih, List.append_assoc]
      rfl

/-- What a program does, it does when its calls are written down, and these are calls it uses. -/
theorem wp_logged :
    ∀ {s : σ} (l : List (Σ op, Res op)), wp step R p Q C s → p.Uses A →
      wp (logged step) (fun c op t => R c op t.1) p
        (fun a t => Q a t.1 ∧ ∃ new, t.2 = l ++ new ∧ ∀ e ∈ new, A e.1)
        (fun t => C t.1 ∧ ∃ new, t.2 = l ++ new ∧ ∀ e ∈ new, A e.1) (s, l) := by
  induction p with
  | ret a => exact fun l h _ => ⟨h, [], (List.append_nil l).symm, fun _ he => by cases he⟩
  | call op k ih =>
    intro s l h hu
    refine ⟨⟨h.1, [], (List.append_nil l).symm, fun _ he => by cases he⟩, fun c hc => ?_⟩
    have hgrow : ∀ t : List (Σ op, Res op),
        (∃ new, t = l ++ [⟨op, (step c op s).1⟩] ++ new ∧ ∀ e ∈ new, A e.1) →
        ∃ new, t = l ++ new ∧ ∀ e ∈ new, A e.1 := by
      rintro t ⟨new, rfl, hnew⟩
      refine ⟨⟨op, (step c op s).1⟩ :: new, by simp, fun e he => ?_⟩
      rcases List.mem_cons.mp he with rfl | he
      · exact hu.1
      · exact hnew e he
    have hrest := ih (step c op s).1 (l ++ [⟨op, (step c op s).1⟩]) (h.2 c hc) (hu.2 _)
    exact wp_mono (fun a t ht => ⟨ht.1, hgrow _ ht.2⟩) (fun t ht => ⟨ht.1, hgrow _ ht.2⟩) hrest

end Prog

end Infra
