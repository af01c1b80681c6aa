namespace ElementBridge.Text

def quotedLetter (c : Char) : List Char :=
  if c = '\\' then ['\\', '\\']
  else if c = '\x27' then ['\\', '\x27']
  else if c = '\n' then ['\\', 'n']
  else [c]

def quotedLetters (text : List Char) : List Char := text.flatMap quotedLetter

def quote (text : String) : String :=
  String.ofList ('\x27' :: quotedLetters text.toList ++ ['\x27'])

end ElementBridge.Text
