import FirmwareVars.Application.Launch
import FirmwareVars.Application.Run
import FirmwareVars.Application.Settings
import FirmwareVars.Application.Transcript
import FirmwareVars.Command
import FirmwareVars.CommandLine
import FirmwareVars.Error
import FirmwareVars.Firmware.Status
import FirmwareVars.Firmware.Variable
import FirmwareVars.Format
import FirmwareVars.Guid.Basic
import FirmwareVars.Guid.Text
import FirmwareVars.Guid.Vendor
import FirmwareVars.Hex
import FirmwareVars.Ini.Entry
import FirmwareVars.Ini.Line
import FirmwareVars.Ini.Location
import FirmwareVars.Ini.Reader
import FirmwareVars.Ini.Scanner
import FirmwareVars.Ini.Token
import FirmwareVars.Ini.Writer
import FirmwareVars.Integer
import FirmwareVars.Log.Record
import FirmwareVars.Log.Shown
import FirmwareVars.Main
import FirmwareVars.Memory
import FirmwareVars.Proofs.Application.Ending
import FirmwareVars.Proofs.Application.History
import FirmwareVars.Proofs.Application.Logging
import FirmwareVars.Proofs.Application.Names
import FirmwareVars.Proofs.Application.Quiet
import FirmwareVars.Proofs.Application.ReadBack
import FirmwareVars.Proofs.Application.Settings
import FirmwareVars.Proofs.Application.SettingsFile
import FirmwareVars.Proofs.Application.Sources
import FirmwareVars.Proofs.Application.Transcript
import FirmwareVars.Proofs.Command.Calls
import FirmwareVars.Proofs.Command.Hosts
import FirmwareVars.Proofs.Command.Storing
import FirmwareVars.Proofs.CommandLine.Marks
import FirmwareVars.Proofs.CommandLine.Quoted
import FirmwareVars.Proofs.CommandLine.Written
import FirmwareVars.Proofs.Guid.Case
import FirmwareVars.Proofs.Guid.Fields
import FirmwareVars.Proofs.Guid.Order
import FirmwareVars.Proofs.Guid.Text
import FirmwareVars.Proofs.Guid.Vendor
import FirmwareVars.Proofs.Hex
import FirmwareVars.Proofs.Hex.Decode
import FirmwareVars.Proofs.Hex.Dump
import FirmwareVars.Proofs.Hex.Order
import FirmwareVars.Proofs.Ini.Cut
import FirmwareVars.Proofs.Ini.Files
import FirmwareVars.Proofs.Ini.Layout
import FirmwareVars.Proofs.Ini.Lines
import FirmwareVars.Proofs.Ini.Outcome
import FirmwareVars.Proofs.Ini.Scan
import FirmwareVars.Proofs.Ini.Scanner
import FirmwareVars.Proofs.Integer
import FirmwareVars.Proofs.Request
import FirmwareVars.Proofs.Request.Spelling
import FirmwareVars.Proofs.Session.History
import FirmwareVars.Proofs.Session.Moment
import FirmwareVars.Proofs.Text.Ascii
import FirmwareVars.Proofs.Text.Ucs2
import FirmwareVars.Proofs.Text.Utf16
import FirmwareVars.Proofs.Text.Utf8
import FirmwareVars.Proofs.Value.Characters
import FirmwareVars.Proofs.Value.Length
import FirmwareVars.Proofs.Value.Text
import FirmwareVars.Proofs.Value.Units
import FirmwareVars.Request
import FirmwareVars.Session
import FirmwareVars.Table
import FirmwareVars.Text.Blank
import FirmwareVars.Text.Quoted
import FirmwareVars.Text.Shapeless
import FirmwareVars.Text.Utf16
import FirmwareVars.Text.Utf8
import FirmwareVars.Value
