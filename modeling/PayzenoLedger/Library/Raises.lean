import PayzenoLedger.Library.Rules

/-!
# What a program may raise

`Raises` bounds the exceptions that leave a program, however its statements end,
whatever it is answered and whoever interferes.  It is read off the text of the
program alone, and holds beside whatever else is known of a run.
-/

set_option autoImplicit false

namespace PayzenoLedger.Library

variable {Y : System} {ε α β : Type}

/-- Every value that the program may end with satisfies the predicate. -/
def Program.Ends : Program Y α → (α → Prop) → Prop
  | .ret value, holds => holds value
  | .run _ next, holds => ∀ value, (next value).Ends holds
  | .enter _ next, holds => next.Ends holds
  | .leave _ next, holds => next.Ends holds
  | .call _ next, holds => ∀ reply, (next reply).Ends holds
  | .mark _ next, holds => next.Ends holds
  | .halt, _ => True

theorem Program.Ends.bind {program : Program Y α} {next : α → Program Y β} {holds : β → Prop}
    (ends : program.Ends fun value => (next value).Ends holds) :
    (program.bind next).Ends holds := by
  induction program with
  | ret value => exact ends
  | halt => trivial
  | run statement rest ih => exact fun value => ih value (ends value)
  | enter name rest ih => exact ih ends
  | leave commit rest ih => exact ih ends
  | call request rest ih => exact fun reply => ih reply (ends reply)
  | mark label rest ih => exact ih ends

theorem Program.Ends.mono {program : Program Y α} {holds holds' : α → Prop}
    (ends : program.Ends holds) (h : ∀ value, holds value → holds' value) :
    program.Ends holds' := by
  induction program with
  | ret value => exact h value ends
  | halt => trivial
  | run statement rest ih => exact fun value => ih value (ends value)
  | enter name rest ih => exact ih ends
  | leave commit rest ih => exact ih ends
  | call request rest ih => exact fun reply => ih reply (ends reply)
  | mark label rest ih => exact ih ends

/-- How a program ends is so in every run of it. -/
theorem wp_ends {D : Discipline Y} {worker : Nat} {program : Program Y α} {holds : α → Prop}
    (ends : program.Ends holds) {post : α → List (Session Y) → Shared Y → Prop}
    {stack : List (Session Y)} {shared : Shared Y}
    (h : wp D worker program post stack shared) :
    wp D worker program (fun value stack' shared' => holds value ∧ post value stack' shared')
      stack shared := by
  induction program generalizing stack shared with
  | ret value => exact ⟨ends, h⟩
  | halt => trivial
  | run statement rest ih =>
      intro shared' rely good top below hstack foot choice free outcome hexec
      exact ih _ (ends _) (h shared' rely good top below hstack foot choice free outcome hexec)
  | enter name rest ih =>
      intro shared' rely good hpermits
      exact ih ends (h shared' rely good hpermits)
  | leave commit rest ih =>
      cases commit with
      | false =>
          intro shared' rely good top below hstack hpermits
          exact ih ends (h shared' rely good top below hstack hpermits)
      | true =>
          intro shared' rely good top below hstack foot hpermits
          obtain ⟨hguarantee, hinvariant, hrest⟩ :=
            h shared' rely good top below hstack foot hpermits
          exact ⟨hguarantee, hinvariant, ih ends hrest⟩
  | call request rest ih =>
      intro shared' rely good choice reply world hreply hpermits
      obtain ⟨hguarantee, hinvariant, hrest⟩ :=
        h shared' rely good choice reply world hreply hpermits
      exact ⟨hguarantee, hinvariant, ih reply (ends reply) hrest⟩
  | mark label rest ih =>
      intro shared' rely good top below hstack
      obtain ⟨hallows, hrest⟩ := h shared' rely good top below hstack
      exact ⟨hallows, ih ends hrest⟩

namespace Raising

/-- Whatever the program raises satisfies the predicate. -/
def Raises (program : Raising Y ε α) (raisable : ε → Prop) : Prop :=
  Program.Ends program.run fun result => ∀ raised, result = .error raised → raisable raised

variable {raisable : ε → Prop}

theorem Raises.pure (value : α) : Raises (pure value : Raising Y ε α) raisable := by
  intro raised h
  cases h

theorem Raises.throw {raised : ε} (h : raisable raised) :
    Raises (throw raised : Raising Y ε α) raisable := by
  intro other hother
  cases hother
  exact h

theorem Raises.bind {program : Raising Y ε α} {next : α → Raising Y ε β}
    (raises : Raises program raisable) (hnext : ∀ value, Raises (next value) raisable) :
    Raises (program >>= next) raisable := by
  refine Program.Ends.bind (Program.Ends.mono raises fun result h => ?_)
  cases result with
  | ok value => exact hnext value
  | error raised =>
      intro other hother
      cases hother
      exact h raised rfl

theorem Raises.execute (statement : Statement Y α) :
    Raises (Raising.execute statement : Raising Y ε α) raisable := by
  intro value raised h
  cases h

theorem Raises.withSession {name : Y.Name} {body : Raising Y ε α}
    (raises : Raises body raisable) : Raises (withSession name body) raisable := by
  refine Program.Ends.bind (Program.Ends.mono raises fun result h => ?_)
  cases result with
  | ok value =>
      intro raised hraised
      cases hraised
  | error raised => exact h

/-- Whatever the program returns satisfies the predicate. -/
def Yields (program : Raising Y ε α) (holds : α → Prop) : Prop :=
  Program.Ends program.run fun result => ∀ value, result = .ok value → holds value

variable {holds : α → Prop}

theorem Yields.pure {value : α} (h : holds value) :
    Yields (pure value : Raising Y ε α) holds := by
  intro other hother
  cases hother
  exact h

theorem Yields.bind {program : Raising Y ε α} {next : α → Raising Y ε β} {holds' : β → Prop}
    (yields : Yields program holds) (hnext : ∀ value, holds value → Yields (next value) holds') :
    Yields (program >>= next) holds' := by
  refine Program.Ends.bind (Program.Ends.mono yields fun result h => ?_)
  cases result with
  | ok value => exact hnext value (h value rfl)
  | error raised =>
      intro other hother
      cases hother

theorem Yields.mono {program : Raising Y ε α} {holds' : α → Prop} (yields : Yields program holds)
    (h : ∀ value, holds value → holds' value) : Yields program holds' :=
  Program.Ends.mono yields fun _ hresult value hvalue => h value (hresult value hvalue)

theorem Yields.trivial (program : Raising Y ε α) : Yields program fun _ => True := by
  have hends : ∀ program : Program Y (Except ε α),
      program.Ends fun result => ∀ value, result = .ok value → True := by
    intro program
    induction program with
    | ret value => exact fun _ _ => True.intro
    | halt => exact True.intro
    | run statement rest ih => exact ih
    | enter name rest ih => exact ih
    | leave commit rest ih => exact ih
    | call request rest ih => exact ih
    | mark label rest ih => exact ih
  exact hends program.run

end Raising

end PayzenoLedger.Library
