/-! What commands say on a terminal: messages of several kinds, each with its own styles.
Styles are always written, whether or not a terminal shows them.
-/

namespace SchemaDoc.Terminal

/-- A colour of text. -/
inductive Color where
  | red
  | green
  | yellow
  | blue
  | cyan
  | white
  deriving DecidableEq, Repr

/-- The digit that selects a colour. -/
def Color.code : Color → String
  | red => "1"
  | green => "2"
  | yellow => "3"
  | blue => "4"
  | cyan => "6"
  | white => "7"

/-- A text in bold. -/
def bold (text : String) : String := "\x1b[1m" ++ text ++ "\x1b[0m"

/-- A text that is dimmed. -/
def dimmed (text : String) : String := "\x1b[2m" ++ text ++ "\x1b[0m"

/-- A text in a colour. -/
def colored (color : Color) (text : String) : String :=
  "\x1b[3" ++ color.code ++ "m" ++ text ++ "\x1b[39m"

/-- A sign in bold in front of a message, in a colour. -/
def sign (color : Color) (mark : String) : String := bold (colored color mark)

/-- A message. -/
inductive Message where
  | header (text : String)
  | heading (text : String)
  | success (text : String)
  | info (text : String)
  | warning (text : String)
  | error (text : String)
  | item (text : String)
  | pair (key value : String)
  | step (number total : Nat) (text : String)
  | blank
  | dim (text : String)
  | plain (text : String)
  deriving DecidableEq, Repr

namespace Message

/-- Whether a message goes to the stream for errors. -/
def isError : Message → Bool
  | error _ => true
  | _ => false

/-- The lines of a message, without the break behind the last one. -/
def line : Message → String
  | header text =>
      let rule := String.ofList (List.replicate text.length '─')
      "\n" ++ colored .cyan (bold text) ++ "\n" ++ dimmed rule ++ "\n"
  | heading text => colored .white (bold text)
  | success text => sign .green "✔" ++ " " ++ colored .green text
  | info text => sign .blue "ℹ" ++ " " ++ text
  | warning text => sign .yellow "⚠" ++ " " ++ colored .yellow text
  | error text => sign .red "✖" ++ " " ++ colored .red text
  | item text => "  " ++ dimmed "•" ++ " " ++ text
  | pair key value => "  " ++ dimmed key ++ ": " ++ value
  | step number total text =>
      dimmed ("[" ++ toString number ++ "/" ++ toString total ++ "]") ++ " " ++ text
  | blank => ""
  | dim text => dimmed text
  | plain text => text

/-- A message as it is written. -/
def render (message : Message) : String := message.line ++ "\n"

end Message

/-- What messages write to the stream for errors, or else to the other one. -/
def written (toErrors : Bool) (messages : List Message) : String :=
  String.join ((messages.filter (·.isError == toErrors)).map Message.render)

end SchemaDoc.Terminal
