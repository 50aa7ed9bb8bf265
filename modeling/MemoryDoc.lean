import MemoryDoc.CommandLine.Command
import MemoryDoc.CommandLine.Run
import MemoryDoc.CommandLine.Usage
import MemoryDoc.Dictionary
import MemoryDoc.Expansion
import MemoryDoc.Fault
import MemoryDoc.Macro.Address
import MemoryDoc.Macro.Advance
import MemoryDoc.Macro.Drawing
import MemoryDoc.Macro.Error
import MemoryDoc.Macro.Lookahead
import MemoryDoc.Macro.Marker
import MemoryDoc.Macro.Name
import MemoryDoc.Macro.PictureJob
import MemoryDoc.Macro.PictureNames
import MemoryDoc.Macro.Pokes
import MemoryDoc.Macro.TableText
import MemoryDoc.Macro.Wording
import MemoryDoc.Main
import MemoryDoc.Memory.Basic
import MemoryDoc.Memory.Stack
import MemoryDoc.Memory.Tiles
import MemoryDoc.Parameter.AddressRange
import MemoryDoc.Parameter.Lookahead
import MemoryDoc.Parameter.Picture
import MemoryDoc.Parameter.Spec
import MemoryDoc.Picture.Colour
import MemoryDoc.Picture.File
import MemoryDoc.Picture.Frame
import MemoryDoc.Picture.Gif
import MemoryDoc.Picture.Png
import MemoryDoc.Picture.Raster
import MemoryDoc.Session
import MemoryDoc.Site.Apart
import MemoryDoc.Site.Link
import MemoryDoc.Site.Listing
import MemoryDoc.Site.Markup
import MemoryDoc.Site.Path
import MemoryDoc.Site.Settings
import MemoryDoc.Store.Basic
import MemoryDoc.Store.Directory
import MemoryDoc.Store.Listed
import MemoryDoc.Store.Node
import MemoryDoc.Store.Tree
import MemoryDoc.Text.Basic
import MemoryDoc.Text.Blank
import MemoryDoc.Text.Bracket
import MemoryDoc.Text.Cursor
import MemoryDoc.Text.Letter
import MemoryDoc.Text.Lookahead
import MemoryDoc.Text.Numeral
import MemoryDoc.Text.Reader
import MemoryDoc.Tile.Basic
import MemoryDoc.Tile.Grid
import MemoryDoc.Tile.Rows
import MemoryDoc.Proofs.Anchors
import MemoryDoc.Proofs.Bytewise.Blocks
import MemoryDoc.Proofs.Bytewise.Rewriting
import MemoryDoc.Proofs.Calls
import MemoryDoc.Proofs.FileNames
import MemoryDoc.Proofs.Footprints
import MemoryDoc.Proofs.Front
import MemoryDoc.Proofs.NeededPictures
import MemoryDoc.Proofs.Nesting
import MemoryDoc.Proofs.Openings
import MemoryDoc.Proofs.Outline.Drawing
import MemoryDoc.Proofs.Outline.Session
import MemoryDoc.Proofs.Outline.Tree
import MemoryDoc.Proofs.Rebuild
import MemoryDoc.Proofs.Referrers
import MemoryDoc.Proofs.Termination.Runs
import MemoryDoc.Proofs.Writing
import MemoryDoc.Proofs.Upscaling
import MemoryDoc.Proofs.Turning
import MemoryDoc.Proofs.RaggedGrids
import MemoryDoc.Proofs.Words
import MemoryDoc.Text.Digits
import MemoryDoc.Memory.Addresses
import MemoryDoc.Parameter.Defaults
import MemoryDoc.Proofs.AddressRanges
import MemoryDoc.Proofs.TileArrays
import MemoryDoc.Proofs.PrintedParameters
import MemoryDoc.Proofs.GivenParameters
import MemoryDoc.Proofs.OtherPrograms
import MemoryDoc.Proofs.Columns
import MemoryDoc.Proofs.PrintedTables
import MemoryDoc.Site.Follow
import MemoryDoc.Site.PicturePath
import MemoryDoc.Proofs.RelativePaths
import MemoryDoc.Proofs.SortedEntries
import MemoryDoc.Proofs.ExactPokes
import MemoryDoc.Proofs.Animations
import MemoryDoc.Proofs.ScreenLayout
import MemoryDoc.Proofs.Symmetries
import MemoryDoc.Macro.Failure
import MemoryDoc.Proofs.NumberNotation
import MemoryDoc.Proofs.PictureSuffixes
import MemoryDoc.Proofs.MatchingBrackets
import MemoryDoc.Proofs.IntegerAddresses
