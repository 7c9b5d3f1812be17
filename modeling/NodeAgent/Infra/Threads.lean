import Mathlib.Logic.Function.Basic
import NodeAgent.Infra.Program

/-!
# Programs side by side

Threads that share a state. Each thread runs one task after the other; a task is a program, and
between two of its calls any other thread may make calls. Of every thread something is noted, which
its own calls change and nothing else.

* `Machine.Run` — the states that are reached when every call meets an assumption
-/

namespace Infra

variable {Op : Type} {Res : Op → Type} {α β σ L χ H ι : Type}

/-! ## Machines -/

structure Machine (Op : Type) (Res : Op → Type) (α σ L χ H : Type) where
  /-- the program of a task, on a thread that the task before left with this value -/
  prog : H → α → Prog Op Res α
  /-- what is noted of a thread that starts a task -/
  init : H → L
  /-- what is noted of a thread without a task -/
  idle : L
  step : χ → L → (op : Op) → σ → Res op × L × σ

structure Pool (ι : Type) (Op : Type) (Res : Op → Type) (α σ L : Type) where
  shared : σ
  progs : ι → Prog Op Res α
  notes : ι → L

namespace Machine

variable (M : Machine Op Res α σ L χ H)

/-- The note of a thread whose program has become `p`. -/
def settle : Prog Op Res α → L → L
  | .ret _, _ => M.idle
  | .call _ _, l => l

variable [DecidableEq ι]

/-- Thread `i` starts a task. -/
def Pool.begin (p : Pool ι Op Res α σ L) (i : ι) (task : H) (a : α) : Pool ι Op Res α σ L :=
  { p with
    progs := Function.update p.progs i (M.prog task a)
    notes := Function.update p.notes i (M.settle (M.prog task a) (M.init task)) }

/-- Thread `i` makes the call that its program is at. -/
def Pool.call (p : Pool ι Op Res α σ L) (i : ι) (c : χ) (op : Op) (k : Res op → Prog Op Res α) :
    Pool ι Op Res α σ L :=
  let answer := M.step c (p.notes i) op p.shared
  { shared := answer.2.2
    progs := Function.update p.progs i (k answer.1)
    notes := Function.update p.notes i (M.settle (k answer.1) answer.2.1) }

/-- The states that are reached from `p₀` when every call meets the assumption `R`. -/
inductive Run (R : σ → (ι → L) → ι → Op → Prop) (p₀ : Pool ι Op Res α σ L) :
    Pool ι Op Res α σ L → Prop
  | start : Run R p₀ p₀
  | begin {p : Pool ι Op Res α σ L} (h : Run R p₀ p) (i : ι) (task : H) {a : α}
      (hidle : p.progs i = .ret a) : Run R p₀ (Pool.begin M p i task a)
  | call {p : Pool ι Op Res α σ L} (h : Run R p₀ p) (i : ι) (c : χ) {op : Op}
      {k : Res op → Prog Op Res α} (hp : p.progs i = .call op k)
      (hR : R p.shared p.notes i op) : Run R p₀ (Pool.call M p i c op k)

end Machine

/-! ## What a program may call -/

/-- The program makes only calls that are allowed by what is noted of its thread. Between two calls
the shared state may become anything. -/
def Prog.Follows (M : Machine Op Res α σ L χ H) (A : L → Op → Prop) :
    Prog Op Res β → (β → L → Prop) → L → Prop
  | .ret a, Q, l => Q a l
  | .call op k, Q, l =>
    A l op ∧ ∀ c s, (k (M.step c l op s).1).Follows M A Q (M.step c l op s).2.1

namespace Prog

variable {γ : Type} {M : Machine Op Res α σ L χ H} {A : L → Op → Prop}

theorem follows_bind {p : Prog Op Res β} {f : β → Prog Op Res γ} {P : β → L → Prop}
    {Q : γ → L → Prop} (hf : ∀ a l, P a l → (f a).Follows M A Q l) :
    ∀ {l : L}, p.Follows M A P l → (p >>= f).Follows M A Q l := by
  induction p with
  | ret a => exact fun h => hf a _ h
  | call op k ih => exact fun h => ⟨h.1, fun c s => ih _ (h.2 c s)⟩

theorem follows_step {op : Op} {f : Res op → Prog Op Res β} {Q : β → L → Prop} {l : L}
    (hop : A l op)
    (hf : ∀ c s, (f (M.step c l op s).1).Follows M A Q (M.step c l op s).2.1) :
    (lift op >>= f).Follows M A Q l :=
  ⟨hop, hf⟩

theorem follows_of_obeys {N : Type} {tell : N → (op : Op) → Res op → N} {B : N → Op → Prop}
    {P : β → N → Prop} {K : N → L → Prop} (hA : ∀ n l op, K n l → B n op → A l op)
    (hK : ∀ n l op c s, K n l → B n op →
      K (tell n op (M.step c l op s).1) (M.step c l op s).2.1) {p : Prog Op Res β} :
    ∀ {n : N} {l : L}, p.Obeys tell B P n → K n l → p.Follows M A (fun _ l => ∃ n, K n l) l := by
  induction p with
  | ret a => exact fun _ hl => ⟨_, hl⟩
  | call op k ih =>
    exact fun hp hl => ⟨hA _ _ op hl hp.1, fun c s => ih _ (hp.2 _) (hK _ _ op c s hl hp.1)⟩

theorem Follows.mono {p : Prog Op Res β} {P Q : β → L → Prop} (hPQ : ∀ a l, P a l → Q a l) :
    ∀ {l : L}, p.Follows M A P l → p.Follows M A Q l := by
  induction p with
  | ret a => exact fun h => hPQ a _ h
  | call op k ih => exact fun h => ⟨h.1, fun c s => ih _ (h.2 c s)⟩

end Prog

/-! ## Invariants -/

namespace Machine

variable [DecidableEq ι] {M : Machine Op Res α σ L χ H} {A : L → Op → Prop}
  {Q : α → L → Prop} {I : σ → (ι → L) → Prop} {R : σ → (ι → L) → ι → Op → Prop}
  {p₀ p : Pool ι Op Res α σ L}

/-- A thread is idle, or at a point of a program that makes allowed calls only. -/
def OnTrack (M : Machine Op Res α σ L χ H) (A : L → Op → Prop) (Q : α → L → Prop) :
    Prog Op Res α → L → Prop
  | .ret _, l => l = M.idle
  | .call op k, l => (Prog.call op k).Follows M A Q l

theorem onTrack_settle {s : σ} {ls : ι → L} {i : ι} {q : Prog Op Res α} {l : L}
    (hidle : ∀ a s ls (i : ι), I s ls → Q a (ls i) → I s (Function.update ls i M.idle))
    (hI : I s (Function.update ls i l)) (hq : q.Follows M A Q l) :
    I s (Function.update ls i (M.settle q l)) ∧ OnTrack M A Q q (M.settle q l) := by
  cases q with
  | ret a =>
    refine ⟨?_, rfl⟩
    have := hidle a s _ i hI (by rw [Function.update_self]; exact hq)
    rwa [Function.update_idem] at this
  | call op k => exact ⟨hI, hq⟩

/-- **The rule for invariants.** Every task makes allowed calls only, a thread may start and end
its tasks, and every allowed call keeps the invariant. -/
theorem Run.invariant (hrun : Run M R p₀ p)
    (hprog : ∀ task a, (M.prog task a).Follows M A Q (M.init task))
    (hidle : ∀ a s ls (i : ι), I s ls → Q a (ls i) → I s (Function.update ls i M.idle))
    (hbegin : ∀ s ls (i : ι) task, I s ls → ls i = M.idle →
      I s (Function.update ls i (M.init task)))
    (hstep : ∀ s ls (i : ι) c op, I s ls → A (ls i) op → R s ls i op →
      I (M.step c (ls i) op s).2.2 (Function.update ls i (M.step c (ls i) op s).2.1))
    (h₀ : I p₀.shared p₀.notes) (ht₀ : ∀ i, OnTrack M A Q (p₀.progs i) (p₀.notes i)) :
    I p.shared p.notes ∧ ∀ i, OnTrack M A Q (p.progs i) (p.notes i) := by
  have hothers : ∀ {q : Pool ι Op Res α σ L} {i : ι} {x : Prog Op Res α} {l : L},
      (∀ j, OnTrack M A Q (q.progs j) (q.notes j)) → OnTrack M A Q x l →
      ∀ j, OnTrack M A Q (Function.update q.progs i x j) (Function.update q.notes i l j) := by
    intro q i x l hall hx j
    by_cases hj : j = i
    · subst hj
      rw [Function.update_self, Function.update_self]
      exact hx
    · rw [Function.update_of_ne hj, Function.update_of_ne hj]
      exact hall j
  induction hrun with
  | start => exact ⟨h₀, ht₀⟩
  | @begin q _ i task a ha ih =>
    obtain ⟨hI, ht⟩ := ih
    have hi : q.notes i = M.idle := by
      have := ht i
      rw [ha] at this
      exact this
    obtain ⟨hI', ht'⟩ := onTrack_settle hidle (hbegin _ _ i task hI hi) (hprog task a)
    exact ⟨hI', hothers ht ht'⟩
  | @call q _ i c op k hp hR ih =>
    obtain ⟨hI, ht⟩ := ih
    have hf : (Prog.call op k).Follows M A Q (q.notes i) := by
      have := ht i
      rw [hp] at this
      exact this
    obtain ⟨hI', ht'⟩ := onTrack_settle hidle (hstep _ _ i c op hI hf.1 hR) (hf.2 c q.shared)
    exact ⟨hI', hothers ht ht'⟩

/-! ## A task that runs alone -/

/-- A program from its start to its end, without other threads. -/
def alone (M : Machine Op Res α σ L χ H) (c : χ) : Prog Op Res α → L → σ → α × σ
  | .ret a, _, s => (a, s)
  | .call op k, l, s =>
    alone M c (k (M.step c l op s).1) (M.step c l op s).2.1 (M.step c l op s).2.2

/-- Every call of the program that runs alone meets the assumption. -/
def AloneMeets (M : Machine Op Res α σ L χ H) (R : σ → (ι → L) → ι → Op → Prop) (ls : ι → L)
    (i : ι) (c : χ) : Prog Op Res α → L → σ → Prop
  | .ret _, _, _ => True
  | .call op k, l, s => R s (Function.update ls i l) i op ∧
      AloneMeets M R ls i c (k (M.step c l op s).1) (M.step c l op s).2.1 (M.step c l op s).2.2

theorem Run.rest_alone (ls : ι → L) (i : ι) (c : χ) (q : Prog Op Res α) :
    ∀ {p : Pool ι Op Res α σ L} {l : L}, Run M R p₀ p → p.progs i = q →
      p.notes = Function.update ls i (M.settle q l) → AloneMeets M R ls i c q l p.shared →
      Run M R p₀ ⟨(M.alone c q l p.shared).2,
        Function.update p.progs i (.ret (M.alone c q l p.shared).1),
        Function.update ls i M.idle⟩ := by
  induction q with
  | ret a =>
    intro p l hrun hp hn _
    obtain ⟨s, progs, notes⟩ := p
    simp only at hp hn
    simp only [alone, ← hp, Function.update_eq_self]
    rw [hn] at hrun
    exact hrun
  | call op k ih =>
    intro p l hrun hp hn hmeets
    have hnote : p.notes i = l := by rw [hn, Function.update_self]; rfl
    have hmeets' := hmeets.1
    rw [show Function.update ls i l = p.notes from hn.symm] at hmeets'
    have hcall := Run.call hrun i c hp hmeets'
    have := ih (M.step c l op p.shared).1 (l := (M.step c l op p.shared).2.1) hcall
      (by simp only [Pool.call, hnote, Function.update_self])
      (by simp only [Pool.call, hnote]; rw [hn, Function.update_idem])
      (by simp only [Pool.call, hnote]; exact hmeets.2)
    simpa only [Pool.call, alone, hnote, Function.update_idem] using this

/-- **A task that runs alone is a run of the machine.** -/
theorem Run.task_alone {s : σ} {progs : ι → Prog Op Res α} {ls : ι → L} {i : ι} {a : α} (c : χ)
    (task : H) (hrun : Run M R p₀ ⟨s, Function.update progs i (.ret a),
      Function.update ls i M.idle⟩)
    (hmeets : AloneMeets M R ls i c (M.prog task a) (M.init task) s) :
    Run M R p₀ ⟨(M.alone c (M.prog task a) (M.init task) s).2,
      Function.update progs i (.ret (M.alone c (M.prog task a) (M.init task) s).1),
      Function.update ls i M.idle⟩ := by
  have hbegin := Run.begin hrun i task (a := a) (by simp only [Function.update_self])
  have := Run.rest_alone ls i c (M.prog task a) (l := M.init task) hbegin
    (by simp only [Pool.begin, Function.update_self])
    (by simp only [Pool.begin, Function.update_idem]) hmeets
  simpa only [Pool.begin, Function.update_idem] using this

/-! ### One task after the other -/

/-- Tasks that run alone on one thread, each with its choice of the environment. -/
def runAlone (M : Machine Op Res α σ L χ H) : List (χ × H) → α × σ → α × σ
  | [], x => x
  | (c, task) :: tasks, (a, s) => M.runAlone tasks (M.alone c (M.prog task a) (M.init task) s)

/-- Every call of them meets the assumption. -/
def AllMeet (M : Machine Op Res α σ L χ H) (R : σ → (ι → L) → ι → Op → Prop) (i : ι) :
    List (χ × H) → α × σ → Prop
  | [], _ => True
  | (c, task) :: tasks, (a, s) =>
    AloneMeets M R (fun _ => M.idle) i c (M.prog task a) (M.init task) s ∧
      M.AllMeet R i tasks (M.alone c (M.prog task a) (M.init task) s)

/-- All threads are idle. Only thread `i` has run since the start. -/
def single (M : Machine Op Res α σ L χ H) (i : ι) (a₀ : α) (x : α × σ) : Pool ι Op Res α σ L :=
  ⟨x.2, Function.update (fun _ => .ret a₀) i (.ret x.1), Function.update (fun _ => M.idle) i M.idle⟩

theorem single_start (M : Machine Op Res α σ L χ H) (i : ι) (a₀ : α) (s : σ) :
    M.single i a₀ (a₀, s) = ⟨s, fun _ => .ret a₀, fun _ => M.idle⟩ := by
  simp only [single, Function.update_eq_self]

theorem Run.tasks_alone {i : ι} {a₀ : α} : ∀ (tasks : List (χ × H)) {x : α × σ},
    Run M R p₀ (M.single i a₀ x) → M.AllMeet R i tasks x →
    Run M R p₀ (M.single i a₀ (M.runAlone tasks x))
  | [], _, hrun, _ => hrun
  | (c, task) :: tasks, (a, s), hrun, hmeet => by
    have hnext : Run M R p₀ (M.single i a₀ (M.alone c (M.prog task a) (M.init task) s)) :=
      Run.task_alone c task hrun hmeet.1
    exact Run.tasks_alone tasks hnext hmeet.2

theorem aloneMeets_of_forall (hR : ∀ s ls (i : ι) op, R s ls i op) (ls : ι → L) (i : ι) (c : χ)
    (q : Prog Op Res α) : ∀ (l : L) (s : σ), AloneMeets M R ls i c q l s := by
  induction q with
  | ret a => exact fun _ _ => trivial
  | call op k ih => exact fun _ _ => ⟨hR _ _ _ _, ih _ _ _⟩

theorem allMeet_of_forall (hR : ∀ s ls (i : ι) op, R s ls i op) (i : ι) :
    ∀ (tasks : List (χ × H)) (x : α × σ), M.AllMeet R i tasks x
  | [], _ => trivial
  | _ :: tasks, _ => ⟨aloneMeets_of_forall hR _ i _ _ _ _, allMeet_of_forall hR i tasks _⟩

end Machine

end Infra
