import Mathlib.Data.List.Infix
import IceCap.Serial.Server

/-!
# The input of the serial server

What comes from the device is cut into tokens: the commands, which a held back
escape character begins, and single bytes.  `handle_char` forwards what the
tokens say.  It takes every line end for the start of a line, but for one that
comes right after an escape character it has held back.
-/

set_option autoImplicit false

namespace IceCap.Serial

open IceCap.Library

/-! ## Tokens -/

inductive Token (n : Nat) where
  | plain (c : UInt8)
  | help
  | switch (client : Fin n)
  | doubled
  | pending
  deriving DecidableEq, Repr

namespace Token

variable {n : Nat}

def bytes : Token n → List UInt8
  | .plain c => [c]
  | .help => [escape, 63]
  | .switch client => [escape, UInt8.ofNat (48 + client)]
  | .doubled => [escape, escape]
  | .pending => [escape]

/-- What is left of a token when commands, and the first of two escape characters, are removed. -/
def kept : Token n → List UInt8
  | .plain c => [c]
  | .doubled => [escape]
  | _ => []

def selects : Token n → Option (Fin n)
  | .switch client => some client
  | _ => none

/-- What is kept goes to the client that was selected last. -/
def route : Fin n → List (Token n) → List (Fin n × UInt8)
  | _, [] => []
  | client, token :: rest => token.kept.map (client, ·) ++ route (token.selects.getD client) rest

/-- The client that is selected after the tokens. -/
def selectedAfter (client : Fin n) (tokens : List (Token n)) : Fin n :=
  tokens.foldl (fun client token => token.selects.getD client) client

theorem route_append (client : Fin n) (first second : List (Token n)) :
    route client (first ++ second) =
      route client first ++ route (selectedAfter client first) second := by
  induction first generalizing client with
  | nil => rfl
  | cons token rest ih =>
      rw [List.cons_append, route, route, ih, List.append_assoc]
      rfl

theorem route_bytes (client : Fin n) (tokens : List (Token n)) :
    (route client tokens).map Prod.snd = tokens.flatMap kept := by
  induction tokens generalizing client with
  | nil => rfl
  | cons token rest ih =>
      rw [route, List.map_append, ih, List.flatMap_cons]
      simp [Function.comp_def]

end Token

def isLineEnd (c : UInt8) : Bool := c == carriageReturn || c == lineFeed

/-- What a character is after an escape character that was held back, and whether a command is
completed. -/
def escaped (n : Nat) (c : UInt8) : List (Token n) × Bool :=
  if c = escape then ([.doubled], false)
  else if c = 63 then ([.help], true)
  else match SerialServer.selected n c with
    | some client => ([.switch client], true)
    | none => ([.plain escape, .plain c], false)

/-- Cut the input into tokens.  A command is one only at the start of a line. -/
def tokenize (n : Nat) : Bool → List UInt8 → List (Token n)
  | _, [] => []
  | lineStart, [c] => if lineStart ∧ c = escape then [.pending] else [.plain c]
  | lineStart, c :: d :: rest =>
      if lineStart ∧ c = escape then (escaped n d).1 ++ tokenize n (escaped n d).2 rest
      else .plain c :: tokenize n (isLineEnd c) (d :: rest)

namespace SerialServer

variable {n : Nat} {server : SerialServer n} {client : Fin n} {c d : UInt8}

theorem selected_val (isSelected : selected n c = some client) :
    client.val = Ring.wrappingSub c.toNat 48 := by
  have general : ∀ id, (if less : id < n then some (⟨id, less⟩ : Fin n) else none) = some client →
      client.val = id := by
    intro id isSome
    split at isSome
    · exact congrArg Fin.val (Option.some.inj isSome).symm
    · cases isSome
  exact general _ isSelected

/-- There are too few clients for a character below `0` to stand for one. -/
theorem selected_eq_some (few : n ≤ maxNumClients) (isSelected : selected n c = some client) :
    c = UInt8.ofNat (48 + client) := by
  have isVal := selected_val isSelected
  have isBelow := client.isLt
  have isByte := c.toNat_lt
  have isMost : maxNumClients = 12 := rfl
  apply UInt8.toNat_inj.mp
  rw [UInt8.toNat_ofNat']
  by_cases isDigit : 48 ≤ c.toNat
  · rw [Ring.wrappingSub_eq isDigit (by unfold Ring.usizeModulus; omega)] at isVal
    omega
  · rw [Ring.wrappingSub_underflows (by omega) (by unfold Ring.usizeModulus; omega)] at isVal
    unfold Ring.usizeModulus at isVal
    omega

theorem escaped_doubled : escaped n escape = ([.doubled], false) := if_pos rfl

theorem escaped_help : escaped n 63 = ([.help], true) := (if_neg (by decide)).trans (if_pos rfl)

theorem escaped_switch (notDoubled : c ≠ escape) (notHelp : c ≠ 63)
    (isSelected : selected n c = some client) : escaped n c = ([.switch client], true) := by
  rw [escaped, if_neg notDoubled, if_neg notHelp, isSelected]

theorem escaped_released (notDoubled : c ≠ escape) (notHelp : c ≠ 63)
    (notSelected : selected n c = none) :
    escaped n c = ([.plain escape, .plain c], false) := by
  rw [escaped, if_neg notDoubled, if_neg notHelp, notSelected]

theorem escaped_bytes (few : n ≤ maxNumClients) (c : UInt8) :
    (escaped n c).1.flatMap Token.bytes = [escape, c] := by
  unfold escaped
  split
  · next isEscape => rw [isEscape]; rfl
  · split
    · next isHelp => rw [isHelp]; rfl
    · split
      · next client isSelected =>
          rw [selected_eq_some few isSelected]
          rfl
      · rfl

theorem escaped_not_pending (c : UInt8) : .pending ∉ (escaped n c).1 := by
  unfold escaped
  split
  · simp
  · split
    · simp
    · split <;> simp

theorem tokenize_bytes (few : n ≤ maxNumClients) (lineStart : Bool) (input : List UInt8) :
    (tokenize n lineStart input).flatMap Token.bytes = input := by
  induction lineStart, input using tokenize.induct n with
  | case1 lineStart => simp [tokenize]
  | case2 lineStart c isPending => simp [tokenize, isPending, Token.bytes]
  | case3 lineStart c isPlain => simp [tokenize, isPlain, Token.bytes]
  | case4 lineStart c d rest isPrefix ih =>
      rw [tokenize, if_pos isPrefix, List.flatMap_append, escaped_bytes few, ih, isPrefix.2]
      rfl
  | case5 lineStart c d rest isPlain ih =>
      rw [tokenize, if_neg isPlain, List.flatMap_cons, ih]
      rfl

/-- Only the last token can be an escape character that is still held back. -/
theorem tokenize_pending (lineStart : Bool) (input : List UInt8) :
    ∃ body tail, tokenize n lineStart input = body ++ tail ∧ .pending ∉ body ∧
      (tail = [] ∨ tail = [.pending]) := by
  induction lineStart, input using tokenize.induct n with
  | case1 lineStart => exact ⟨[], [], by simp [tokenize], by simp, .inl rfl⟩
  | case2 lineStart c isPending =>
      exact ⟨[], [.pending], by simp [tokenize, isPending], by simp, .inr rfl⟩
  | case3 lineStart c isPlain =>
      exact ⟨[.plain c], [], by simp [tokenize, isPlain], by simp, .inl rfl⟩
  | case4 lineStart c d rest isPrefix ih =>
      obtain ⟨body, tail, isRest, absent, isTail⟩ := ih
      refine ⟨(escaped n d).1 ++ body, tail, ?_, ?_, isTail⟩
      · rw [tokenize, if_pos isPrefix, isRest, List.append_assoc]
      · intro member
        exact (List.mem_append.mp member).elim (escaped_not_pending d) absent
  | case5 lineStart c d rest isPlain ih =>
      obtain ⟨body, tail, isRest, absent, isTail⟩ := ih
      refine ⟨.plain c :: body, tail, ?_, by simpa using absent, isTail⟩
      rw [tokenize, if_neg isPlain, isRest]
      rfl

/-! ## What is forwarded -/

/-- The characters of the input, one after the other. -/
def feed (server : SerialServer n) : List UInt8 → List (Fin n × UInt8) × SerialServer n
  | [] => ([], server)
  | c :: rest =>
      let handled := server.handleChar c
      let others := feed handled.2 rest
      (handled.1 ++ others.1, others.2)

theorem feed_cons (c : UInt8) (rest : List UInt8) :
    (server.feed (c :: rest)).1 =
      (server.handleChar c).1 ++ ((server.handleChar c).2.feed rest).1 := rfl

/-- The state at the start of a token. -/
structure Between (lineStart : Bool) (client : Fin n) (server : SerialServer n) : Prop where
  inputState : server.inputState = if lineStart then .newLine else .start
  active : server.activeInputClient = some client

theorem forward_active (isActive : server.activeInputClient = some client) (bytes : List UInt8) :
    server.forward bytes = bytes.map (client, ·) := by
  rw [forward, isActive]

theorem raw_eq (c : UInt8) : raw c = if isLineEnd c then .newLine else .start := by
  simp [raw, isLineEnd]

theorem handleChar_start (isStart : server.inputState = .start) (c : UInt8) :
    server.handleChar c = (server.forward [c], { server with inputState := raw c }) := by
  unfold handleChar
  rw [isStart]

theorem handleChar_newLine (isNewLine : server.inputState = .newLine) (isOther : c ≠ escape) :
    server.handleChar c = (server.forward [c], { server with inputState := raw c }) := by
  unfold handleChar
  rw [isNewLine]
  exact if_neg isOther

theorem handleChar_held (isNewLine : server.inputState = .newLine) :
    server.handleChar escape = ([], { server with inputState := .escape }) := by
  unfold handleChar
  rw [isNewLine]
  exact if_pos rfl

theorem handleChar_plain {lineStart : Bool} (between : Between lineStart client server)
    (isPlain : ¬ (lineStart = true ∧ c = escape)) :
    server.handleChar c = (server.forward [c], { server with inputState := raw c }) := by
  cases lineStart with
  | false => exact handleChar_start between.inputState c
  | true => exact handleChar_newLine between.inputState fun isEscape => isPlain ⟨rfl, isEscape⟩

theorem notice_active (text : String) :
    (server.clearOutputClient.put [.message text]).activeInputClient = server.activeInputClient := by
  unfold clearOutputClient put
  split <;> rfl

/-! The four ways on from an escape character that is held back. -/

theorem handleChar_doubled (isEscape : server.inputState = .escape) :
    server.handleChar escape = (server.forward [escape], { server with inputState := .start }) := by
  unfold handleChar
  rw [isEscape]
  exact if_pos rfl

theorem handleChar_help (isEscape : server.inputState = .escape) : server.handleChar 63 =
    ([], { server.clearOutputClient.put [.message (help n)] with inputState := .newLine }) := by
  unfold handleChar
  rw [isEscape]
  exact (if_neg (by decide)).trans (if_pos rfl)

theorem handleChar_switch (isEscape : server.inputState = .escape) (notDoubled : c ≠ escape)
    (notHelp : c ≠ 63) (isSelected : selected n c = some client) :
    server.handleChar c = ([], { server.setInputClient client with inputState := .newLine }) := by
  unfold handleChar
  rw [isEscape, isSelected]
  exact (if_neg notDoubled).trans (if_neg notHelp)

theorem handleChar_released (isEscape : server.inputState = .escape) (notDoubled : c ≠ escape)
    (notHelp : c ≠ 63) (notSelected : selected n c = none) :
    server.handleChar c = (server.forward [escape, c], { server with inputState := .start }) := by
  unfold handleChar
  rw [isEscape, notSelected]
  exact (if_neg notDoubled).trans (if_neg notHelp)

/-- The character after one that was held back. -/
theorem handleChar_escaped (isEscape : server.inputState = .escape)
    (isActive : server.activeInputClient = some client) (c : UInt8) :
    (server.handleChar c).1 = Token.route client (escaped n c).1 ∧
      Between (escaped n c).2 (Token.selectedAfter client (escaped n c).1)
        (server.handleChar c).2 := by
  by_cases isDoubled : c = escape
  · subst isDoubled
    rw [handleChar_doubled isEscape, escaped_doubled, forward_active isActive]
    exact ⟨rfl, rfl, isActive⟩
  · by_cases isHelp : c = 63
    · subst isHelp
      rw [handleChar_help isEscape, escaped_help]
      exact ⟨rfl, rfl, (notice_active (help n)).trans isActive⟩
    · cases isSelected : selected n c with
      | some other =>
          rw [handleChar_switch isEscape isDoubled isHelp isSelected,
            escaped_switch isDoubled isHelp isSelected]
          exact ⟨rfl, rfl, rfl⟩
      | none =>
          rw [handleChar_released isEscape isDoubled isHelp isSelected,
            escaped_released isDoubled isHelp isSelected, forward_active isActive]
          exact ⟨rfl, rfl, isActive⟩

theorem feed_route {lineStart : Bool} (between : Between lineStart client server)
    (input : List UInt8) :
    (server.feed input).1 = Token.route client (tokenize n lineStart input) := by
  induction lineStart, input using tokenize.induct n generalizing server client with
  | case1 lineStart =>
      rw [tokenize]
      rfl
  | case2 lineStart c isPending =>
      obtain ⟨rfl, rfl⟩ := isPending
      rw [tokenize, if_pos ⟨rfl, rfl⟩, feed_cons, handleChar_held between.inputState]
      rfl
  | case3 lineStart c isPlain =>
      rw [tokenize, if_neg isPlain, feed_cons, handleChar_plain between isPlain,
        forward_active between.active]
      rfl
  | case4 lineStart c d rest isPrefix ih =>
      obtain ⟨rfl, rfl⟩ := isPrefix
      let held : SerialServer n := { server with inputState := .escape }
      have isEscape : held.inputState = .escape := rfl
      have isActive : held.activeInputClient = some client := between.active
      obtain ⟨sent, after⟩ := handleChar_escaped isEscape isActive d
      rw [tokenize, if_pos ⟨rfl, rfl⟩, feed_cons, handleChar_held between.inputState, List.nil_append,
        feed_cons, sent, ih after, Token.route_append]
  | case5 lineStart c d rest isPlain ih =>
      have after : Between (isLineEnd c) client { server with inputState := raw c } :=
        ⟨raw_eq c, between.active⟩
      rw [tokenize, if_neg isPlain, feed_cons, handleChar_plain between isPlain,
        forward_active between.active, ih after]
      rfl

/-- Nothing of the input is lost but the commands, and what is kept goes where it should. -/
theorem forwarded_eq (isNew : new n = some server) (positive : 0 < n) (input : List UInt8) :
    (server.feed input).1 = Token.route ⟨0, positive⟩ (tokenize n false input) ∧
      (server.feed input).1.map Prod.snd = (tokenize n false input).flatMap Token.kept ∧
      (tokenize n false input).flatMap Token.bytes = input ∧
      ∃ body tail, tokenize n false input = body ++ tail ∧ .pending ∉ body ∧
        (tail = [] ∨ tail = [.pending]) := by
  unfold new at isNew
  split at isNew
  · next few =>
      have isServer := Option.some.inj isNew
      have isFirst : (List.finRange n).head? = some ⟨0, positive⟩ := by
        rw [List.head?_eq_getElem?, List.getElem?_eq_getElem (by simpa using positive)]
        simp
      have between : Between false ⟨0, positive⟩ server := by
        rw [← isServer]
        exact ⟨rfl, isFirst⟩
      have routed := feed_route between input
      refine ⟨routed, ?_, tokenize_bytes few false input, tokenize_pending false input⟩
      rw [routed, Token.route_bytes]
  · cases isNew

/-- A line end, a command, a doubled escape character and one that is left over. -/
theorem forwarded_eq_twoClients : ∃ server : SerialServer 2, new 2 = some server ∧
    (server.feed [97, 10, 64, 49, 98, 10, 64, 64, 10, 64]).1 =
      [(0, 97), (0, 10), (1, 98), (1, 10), (1, 64), (1, 10)] := by
  refine ⟨_, rfl, ?_⟩
  rw [(forwarded_eq rfl (by decide) _).1]
  decide +kernel

/-! ## Where a line starts -/

/-- A line end is the last that is forwarded. -/
def ForwardsLineEnd (server : SerialServer n) (c : UInt8) : Prop :=
  isLineEnd c = true ∧ ∃ held, (server.handleChar c).1 = server.forward (held ++ [c])

/-- A help or switch command. -/
def CompletesCommand (server : SerialServer n) (c : UInt8) : Prop :=
  server.inputState = .escape ∧ (c = 63 ∨ (selected n c).isSome = true)

/-- A line starts after what ends one, and nowhere else, and there an escape character is held back. -/
structure LineStarts (server : SerialServer n) (input : List UInt8) : Prop where
  starts : ∀ earlier c, earlier ++ [c] <+: input →
    ((server.feed (earlier ++ [c])).2.inputState = .newLine ↔
      (server.feed earlier).2.ForwardsLineEnd c ∨ (server.feed earlier).2.CompletesCommand c)
  holds : ∀ earlier, earlier ++ [escape] <+: input →
    ((server.feed (earlier ++ [escape])).2.inputState = .escape ↔
      ∃ sooner c, earlier = sooner ++ [c] ∧
        ((server.feed sooner).2.ForwardsLineEnd c ∨ (server.feed sooner).2.CompletesCommand c))

theorem feed_concat (input : List UInt8) (c : UInt8) :
    (server.feed (input ++ [c])).2 = ((server.feed input).2.handleChar c).2 := by
  induction input generalizing server with
  | nil => rfl
  | cons first rest ih => exact ih

theorem selected_none (few : n ≤ maxNumClients) (notDigit : c.toNat < 48 ∨ 60 ≤ c.toNat) :
    selected n c = none := by
  cases isSelected : selected n c with
  | none => rfl
  | some client =>
      have isDigit := congrArg UInt8.toNat (selected_eq_some few isSelected)
      have isBelow := client.isLt
      have isMost : maxNumClients = 12 := rfl
      rw [UInt8.toNat_ofNat'] at isDigit
      omega

theorem lineEnd_cases (isEnd : isLineEnd c = true) :
    c ≠ escape ∧ c ≠ 63 ∧ c.toNat < 48 := by
  simp only [isLineEnd, Bool.or_eq_true, beq_iff_eq] at isEnd
  rcases isEnd with rfl | rfl <;> decide

theorem lineEnd_forwards (few : n ≤ maxNumClients) (isEnd : isLineEnd c = true) :
    server.ForwardsLineEnd c := by
  obtain ⟨notDoubled, notHelp, isLow⟩ := lineEnd_cases isEnd
  refine ⟨isEnd, ?_⟩
  cases isState : server.inputState with
  | start => exact ⟨[], by rw [handleChar_start isState]; rfl⟩
  | newLine => exact ⟨[], by rw [handleChar_newLine isState notDoubled]; rfl⟩
  | escape =>
      have notSelected := selected_none few (.inl isLow)
      exact ⟨[escape], by rw [handleChar_released isState notDoubled notHelp notSelected]; rfl⟩

theorem raw_newLine_iff : raw c = .newLine ↔ isLineEnd c = true := by
  rw [raw_eq]
  cases isLineEnd c <;> simp

theorem handleChar_newLine_iff (few : n ≤ maxNumClients) :
    (server.handleChar c).2.inputState = .newLine ↔
      (isLineEnd c = true ∧ server.inputState ≠ .escape) ∨ server.CompletesCommand c := by
  unfold CompletesCommand
  cases isState : server.inputState with
  | start =>
      rw [handleChar_start isState]
      simpa using raw_newLine_iff
  | newLine =>
      by_cases isEscape : c = escape
      · subst isEscape
        rw [handleChar_held isState]
        simp [isLineEnd, escape, carriageReturn, lineFeed]
      · rw [handleChar_newLine isState isEscape]
        simpa using raw_newLine_iff
  | escape =>
      by_cases isDoubled : c = escape
      · subst isDoubled
        have notSelected : selected n escape = none := selected_none few (.inr (by decide))
        rw [handleChar_doubled isState, notSelected]
        simp [escape]
      · by_cases isHelp : c = 63
        · subst isHelp
          rw [handleChar_help isState]
          simp
        · cases isSelected : selected n c with
          | some other =>
              rw [handleChar_switch isState isDoubled isHelp isSelected]
              simp
          | none =>
              rw [handleChar_released isState isDoubled isHelp isSelected]
              simp [isHelp]

theorem handleChar_escape_iff :
    (server.handleChar escape).2.inputState = .escape ↔ server.inputState = .newLine := by
  cases isState : server.inputState with
  | start =>
      rw [handleChar_start isState]
      simp [raw_eq, isLineEnd, escape, carriageReturn, lineFeed]
  | newLine =>
      rw [handleChar_held isState]
      simp
  | escape =>
      rw [handleChar_doubled isState]
      simp

/-- Lines start where they should if and only if no line end comes right after an escape character
that is held back. -/
theorem lineStarts_iff (isNew : new n = some server) (input : List UInt8) :
    server.LineStarts input ↔ ∀ earlier c, earlier ++ [c] <+: input →
      ¬ ((server.feed earlier).2.inputState = .escape ∧ isLineEnd c = true) := by
  obtain ⟨few, starts⟩ : n ≤ maxNumClients ∧ server.inputState = .start := by
    unfold new at isNew
    split at isNew
    · next few => exact ⟨few, Option.some.inj isNew ▸ rfl⟩
    · cases isNew
  constructor
  · intro lineStarts earlier c isEarlier both
    have starts := (lineStarts.starts earlier c isEarlier).mpr (.inl (lineEnd_forwards few both.2))
    rw [feed_concat, handleChar_newLine_iff few] at starts
    obtain ⟨_, notHelp, isLow⟩ := lineEnd_cases both.2
    rcases starts with ⟨_, notEscape⟩ | ⟨_, isHelp | isSelected⟩
    · exact notEscape both.1
    · exact notHelp isHelp
    · rw [selected_none few (.inl isLow)] at isSelected
      cases isSelected
  · intro apart
    have exactly : ∀ earlier c, earlier ++ [c] <+: input →
        ((server.feed (earlier ++ [c])).2.inputState = .newLine ↔
          (server.feed earlier).2.ForwardsLineEnd c ∨ (server.feed earlier).2.CompletesCommand c) := by
      intro earlier c isEarlier
      rw [feed_concat, handleChar_newLine_iff few]
      apply or_congr_left
      constructor
      · exact fun both => lineEnd_forwards few both.1
      · exact fun forwards => ⟨forwards.1, fun isEscape => apart earlier c isEarlier ⟨isEscape, forwards.1⟩⟩
    refine ⟨exactly, fun earlier isEarlier => ?_⟩
    rw [feed_concat, handleChar_escape_iff]
    rcases List.eq_nil_or_concat earlier with rfl | ⟨sooner, c, rfl⟩
    · refine iff_of_false (fun isNewLine => ?_) (fun isLater => ?_)
      · cases starts.symm.trans isNewLine
      · obtain ⟨sooner, c, isEmpty, _⟩ := isLater
        simp at isEmpty
    · rw [List.concat_eq_append] at isEarlier ⊢
      rw [exactly sooner c ((List.prefix_append _ _).trans isEarlier)]
      constructor
      · exact fun ended => ⟨sooner, c, rfl, ended⟩
      · intro isLater
        obtain ⟨before, last, isConcat, ended⟩ := isLater
        obtain ⟨rfl, isLast⟩ := List.append_inj' isConcat rfl
        obtain rfl := List.singleton_inj.mp isLast
        exact ended

/-- The first client gets two lines, and the second one is selected in between. -/
theorem lineStarts_iff_twoClients : ∃ server : SerialServer 2, new 2 = some server ∧
    server.LineStarts [97, 10, 64, 49, 98] := by
  let server : SerialServer 2 := {
    buffers := fun _ => []
    activeInputClient := some 0
    lastOutputClient := none
    outputSinceLastTimeout := false
    inputState := .start
    dev := [] }
  have isNew : new 2 = some server := rfl
  have apart : ∀ read ∈ List.inits [97, 10, 64, 49, 98],
      ¬ ((server.feed read.dropLast).2.inputState = .escape ∧
        read.getLast?.any isLineEnd = true) := by decide +kernel
  refine ⟨server, isNew, (lineStarts_iff isNew _).mpr ?_⟩
  intro earlier c isEarlier
  have isApart := apart _ ((List.mem_inits _ _).mpr isEarlier)
  simpa using isApart

/-- After a line of an escape character alone, the next line does not start. -/
theorem loneEscape_hides_line : ∃ server : SerialServer 1, new 1 = some server ∧
    ¬ server.LineStarts [10, 64, 10, 64] := by
  refine ⟨_, rfl, fun lineStarts => ?_⟩
  have starts := (lineStarts.starts [10, 64] 10 ⟨[64], rfl⟩).mpr
    (.inl (lineEnd_forwards (by decide) rfl))
  exact absurd starts (by decide +kernel)

end SerialServer

end IceCap.Serial
