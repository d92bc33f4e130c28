namespace ImageProbe

inductive Note
  | debug (text : String)
  | warn (text : String)
  deriving DecidableEq

def Note.line : Note → String
  | debug text => "DEBUG: " ++ text
  | warn text => "WARN: " ++ text

end ImageProbe
