import ImageProbe.Bitmap
import ImageProbe.Box.Header
import ImageProbe.Box.Visit
import ImageProbe.Bytes
import ImageProbe.Bytes.BitCursor
import ImageProbe.Bytes.Escaped
import ImageProbe.Bytes.Utf8
import ImageProbe.Error
import ImageProbe.FixedHeader
import ImageProbe.Format
import ImageProbe.Heif
import ImageProbe.Heif.Findings
import ImageProbe.Heif.Level
import ImageProbe.Icon.Directory
import ImageProbe.Icon.Embedded
import ImageProbe.Jpeg
import ImageProbe.Jxl
import ImageProbe.Jxl.SizeHeader
import ImageProbe.Limits
import ImageProbe.Markup.Item
import ImageProbe.Markup.Root
import ImageProbe.Note
import ImageProbe.Proofs.Abreast
import ImageProbe.Proofs.Agree
import ImageProbe.Proofs.Bitmap.Completed
import ImageProbe.Proofs.Box.Opened
import ImageProbe.Proofs.Box.Parcel
import ImageProbe.Proofs.Box.Replaced
import ImageProbe.Proofs.Box.Visit
import ImageProbe.Proofs.Bytes
import ImageProbe.Proofs.Bytes.Bits
import ImageProbe.Proofs.Bytes.Cursor
import ImageProbe.Proofs.Checks
import ImageProbe.Proofs.Contained
import ImageProbe.Proofs.Cut
import ImageProbe.Proofs.Ensures
import ImageProbe.Proofs.Eval
import ImageProbe.Proofs.Follows
import ImageProbe.Proofs.Guarded
import ImageProbe.Proofs.Guarded.Bits
import ImageProbe.Proofs.Guarded.Boxes
import ImageProbe.Proofs.Guarded.Headers
import ImageProbe.Proofs.Guarded.Heif
import ImageProbe.Proofs.Guarded.Icon
import ImageProbe.Proofs.Guarded.Jpeg
import ImageProbe.Proofs.Guarded.Jxl
import ImageProbe.Proofs.Guarded.LookAhead
import ImageProbe.Proofs.Guarded.Table
import ImageProbe.Proofs.Guarded.Webp
import ImageProbe.Proofs.Heeds
import ImageProbe.Proofs.Heif.Abreast
import ImageProbe.Proofs.Heif.Brand
import ImageProbe.Proofs.Heif.Checks
import ImageProbe.Proofs.Heif.Clues
import ImageProbe.Proofs.Heif.Contained
import ImageProbe.Proofs.Heif.Cut
import ImageProbe.Proofs.Heif.Document
import ImageProbe.Proofs.Heif.Entries
import ImageProbe.Proofs.Heif.Forest
import ImageProbe.Proofs.Heif.Hidden
import ImageProbe.Proofs.Heif.Kept
import ImageProbe.Proofs.Heif.Largest
import ImageProbe.Proofs.Heif.LookInto
import ImageProbe.Proofs.Heif.Looks
import ImageProbe.Proofs.Heif.Marks
import ImageProbe.Proofs.Heif.Media
import ImageProbe.Proofs.Heif.Outline
import ImageProbe.Proofs.Heif.Places
import ImageProbe.Proofs.Heif.SizeForms
import ImageProbe.Proofs.Heif.Verdict
import ImageProbe.Proofs.Icon.Choice
import ImageProbe.Proofs.Icon.Headerless
import ImageProbe.Proofs.Icon.Resolved
import ImageProbe.Proofs.Jpeg.Fill
import ImageProbe.Proofs.Jpeg.Items
import ImageProbe.Proofs.Jpeg.Lengths
import ImageProbe.Proofs.Jpeg.Passes
import ImageProbe.Proofs.Jpeg.Search
import ImageProbe.Proofs.Jpeg.Segments
import ImageProbe.Proofs.Jxl.Container
import ImageProbe.Proofs.Jxl.Encoded
import ImageProbe.Proofs.Jxl.Parted
import ImageProbe.Proofs.Jxl.SizeHeader
import ImageProbe.Proofs.Jxl.Wrapped
import ImageProbe.Proofs.LookAhead
import ImageProbe.Proofs.LookAhead.Calls
import ImageProbe.Proofs.Markup.Document
import ImageProbe.Proofs.Markup.Ends
import ImageProbe.Proofs.Markup.Names
import ImageProbe.Proofs.Markup.Window
import ImageProbe.Proofs.Paid
import ImageProbe.Proofs.Paid.Decoders
import ImageProbe.Proofs.Portions
import ImageProbe.Proofs.Prompt
import ImageProbe.Proofs.Prompt.Decoders
import ImageProbe.Proofs.Run
import ImageProbe.Proofs.Settled
import ImageProbe.Proofs.Stopping
import ImageProbe.Proofs.Streaming
import ImageProbe.Proofs.Table.Frame
import ImageProbe.Proofs.Table.Order
import ImageProbe.Proofs.Table.Routing
import ImageProbe.Proofs.Table.Stability
import ImageProbe.Proofs.Taken
import ImageProbe.Proofs.Tiff.Scan
import ImageProbe.Proofs.Tiff.Written
import ImageProbe.Proofs.Tiff.Zeros
import ImageProbe.Proofs.Unaborted
import ImageProbe.Proofs.Unstopped
import ImageProbe.Proofs.Webp.Dispatch
import ImageProbe.Proofs.Webp.Form
import ImageProbe.Proofs.Webp.Picture
import ImageProbe.Script
import ImageProbe.Stream.LookAhead
import ImageProbe.Stream.Reader
import ImageProbe.Stream.Source
import ImageProbe.Table
import ImageProbe.Table.Builtin
import ImageProbe.Tiff
import ImageProbe.Walk
import ImageProbe.Webp
