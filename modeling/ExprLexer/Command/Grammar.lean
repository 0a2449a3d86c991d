import ExprLexer.Command.Word

/-!
# Grammars of command lines

The words of a command line are read from left to right: switches act on the options, and a command
may want an operand or hand over to another command. Words that mean nothing are kept aside.
-/

namespace ExprLexer.Command

/-- What a command does with operands. -/
inductive Operands (σ : Type) where
  | none
  | one (label : String) (set : String → σ → σ)
  /-- The first operand names another command, to which everything behind it goes. -/
  | command (set : String → List String → σ → Except UsageError σ)

structure Grammar (σ : Type) where
  switches : List (Switch σ)
  operands : Operands σ

/-- Why a command line is not carried out. -/
inductive Stop where
  | help
  | error (e : UsageError)
  deriving DecidableEq, Repr

structure Progress (σ : Type) where
  options : σ
  filled : Bool := false
  extras : List String := []

namespace Progress

def extra (p : Progress σ) (text : String) : Progress σ := { p with extras := p.extras ++ [text] }

/-- The progress with new options, unless there is an error in their place. -/
def update (p : Progress σ) : Except UsageError σ → Except Stop (Progress σ)
  | .ok options => .ok { p with options }
  | .error e => .error (.error e)

def act (p : Progress σ) (s : Switch σ) : Except Stop (Progress σ) :=
  match s.action with
  | .help => .error .help
  | .mark set => .ok { p with options := set p.options }
  | .store _ => .error (.error (.needsText s.label))

end Progress

/-- The switches that one which needs no text stands for together with what is attached to it. That
is read as more letters; a letter that no switch has ends them, and what is left is kept aside. -/
def letters (switches : List (Switch σ)) (s : Switch σ) :
    List Char → Except UsageError (List (Switch σ) × Option String)
  | [] => .error (.surplusText s.label "")
  | '=' :: text => .error (.surplusText s.label (String.ofList text))
  | '-' :: text => .error (.surplusText s.label (String.ofList ('-' :: text)))
  | c :: text =>
    match findSwitch? switches ['-', c] with
    | none => .ok ([s], some (String.ofList ('-' :: c :: text)))
    | some t =>
      if text = [] then .ok ([s, t], none)
      else (letters switches t text).map fun (ts, left) => (s :: ts, left)

/-- The text that is attached to a switch, by an equals sign or at once. -/
def attachedText : List Char → String
  | '=' :: text => String.ofList text
  | text => String.ofList text

def Progress.attach (switches : List (Switch σ)) (p : Progress σ) (s : Switch σ)
    (attached : List Char) : Except Stop (Progress σ) :=
  match s.action with
  | .store set => p.update (set (attachedText attached) p.options)
  | _ =>
    match letters switches s attached with
    | .error e => .error (.error e)
    | .ok (ts, left) => ts.foldlM Progress.act (left.elim p p.extra)

def startsWithSeparator : List (Word σ) → Bool
  | ⟨_, .separator⟩ :: _ => true
  | _ => false

namespace Grammar

/-- What words come to. Of two dashes nothing is kept where an operand is taken right before or
right behind them. -/
def read (g : Grammar σ) (p : Progress σ) : List (Word σ) → Except Stop (Progress σ)
  | [] => .ok p
  | w :: rest =>
    match w.reading with
    | .unknown => read g (p.extra w.text) rest
    | .switch s (some attached) => do read g (← p.attach g.switches s attached) rest
    | .switch s none =>
      match s.action with
      | .store set =>
        match rest with
        | ⟨text, .operand⟩ :: rest => do read g (← p.update (set text p.options)) rest
        | _ => .error (.error (.needsText s.label))
      | _ => do read g (← p.act s) rest
    | .operand =>
      match g.operands, p.filled with
      | .one _ set, false =>
        let p := { p with options := set w.text p.options, filled := true }
        if startsWithSeparator rest then
          match rest with
          | [] => .ok p
          | _ :: rest => read g p rest
        else read g p rest
      | .command set, false => p.update (set w.text (rest.map (·.text)) p.options)
      | _, _ => read g (p.extra w.text) rest
    | .separator =>
      match g.operands, p.filled with
      | .one _ set, false =>
        match rest with
        | [] => .ok (p.extra w.text)
        | a :: rest => read g { p with options := set a.text p.options, filled := true } rest
      | .command set, false =>
        if rest.isEmpty then .ok (p.extra w.text)
        else p.update (set w.text (rest.map (·.text)) p.options)
      | _, _ => read g (p.extra w.text) rest

/-- The options that arguments set, starting from `options`, and the arguments left aside. -/
def parse (g : Grammar σ) (options : σ) (arguments : List String) :
    Except Stop (σ × List String) :=
  match words g.switches arguments with
  | .error e => .error (.error e)
  | .ok ws =>
    match g.read { options } ws with
    | .error s => .error s
    | .ok p =>
      match g.operands, p.filled with
      | .one label _, false => .error (.error (.missing label))
      | _, _ => .ok (p.options, p.extras)

end Grammar

end ExprLexer.Command
